import BlockSync.Proofs.Wire.Splitting

/-! How long written values are, and with them the payloads of messages. -/

namespace BlockSync

open Wire (write)

namespace Wire

theorem length_writeGroups_le (k n : Nat) : (writeGroups k n).length ≤ k := by
  induction k generalizing n with
  | zero => exact Nat.le_refl 0
  | succ k ih =>
    unfold writeGroups
    split
    · exact Nat.succ_le_succ (Nat.zero_le k)
    · exact Nat.succ_le_succ (ih _)

theorem length_write_string (s : String) :
    (Text.utf8 s).length ≤ (write s : Bytes).length ∧
      (write s : Bytes).length ≤ 5 + (Text.utf8 s).length := by
  change _ ≤ (writeLength _ ++ Text.utf8 s).length ∧ (writeLength _ ++ Text.utf8 s).length ≤ _
  rw [List.length_append]
  exact ⟨Nat.le_add_left _ _, Nat.add_le_add_right (length_writeGroups_le 5 _) _⟩

theorem length_write_octets {n : Nat} (o : Octets n) : (write o : Bytes).length = n := o.length_eq

theorem length_flatMap_write_octets {n : Nat} (os : List (Octets n)) :
    (os.flatMap write : Bytes).length = n * os.length := by
  induction os with
  | nil => rfl
  | cons o os ih =>
    rw [List.flatMap_cons, List.length_append, length_write_octets, ih, List.length_cons,
      Nat.mul_succ, Nat.add_comm]

theorem length_write_idList (l : IdList) :
    8 ≤ (write l : Bytes).length ∧ (write l : Bytes).length ≤ 13 + 32 * l.ids.length := by
  change 8 ≤ (write l.mode.code ++ write l.pending ++
      (writeLength (UInt32.ofNat l.ids.length) ++ l.ids.flatMap write) : Bytes).length ∧
    (write l.mode.code ++ write l.pending ++
      (writeLength (UInt32.ofNat l.ids.length) ++ l.ids.flatMap write) : Bytes).length ≤ _
  have hcount := length_writeGroups_le 5 (UInt32.ofNat l.ids.length).toNat
  have hids := length_flatMap_write_octets l.ids
  change (writeLength (UInt32.ofNat l.ids.length)).length ≤ 5 at hcount
  simp only [List.length_append, length_write_uint32]
  omega

theorem length_write_idLists (l l' : IdList) :
    1 ≤ (write l ++ write l' : Bytes).length ∧
      (write l ++ write l' : Bytes).length ≤ 26 + 32 * (l.ids.length + l'.ids.length) := by
  have h := length_write_idList l
  have h' := length_write_idList l'
  rw [List.length_append]
  omega

end Wire

namespace Message

theorem length_handshake (m : Handshake) :
    (handshake m).payload.length =
      280 + (write m.p2pAddress : Bytes).length + (write m.os : Bytes).length +
        (write m.agent : Bytes).length := by
  have hversion : (write m.networkVersion : Bytes).length = 2 := Wire.length_littleEndian 2 _
  have htime : (write m.time : Bytes).length = 8 := Wire.length_littleEndian 8 _
  have hgeneration : (write m.generation : Bytes).length = 2 := Wire.length_littleEndian 2 _
  change (write m.networkVersion ++ write m.chainId ++ write m.nodeId ++ write m.key ++
    write m.time ++ write m.token ++ write m.sig ++ write m.p2pAddress ++ write m.libNum ++
    write m.libId ++ write m.headNum ++ write m.headId ++ write m.os ++ write m.agent ++
    write m.generation : Bytes).length = _
  simp only [List.length_append, Wire.length_write_octets, Wire.length_write_uint32]
  omega

theorem length_syncRequest (range : BlockRange) : (syncRequest range).payload.length = 8 := by
  change (write range.first ++ write range.last : Bytes).length = _
  rw [List.length_append, Wire.length_write_uint32, Wire.length_write_uint32]

end Message

end BlockSync
