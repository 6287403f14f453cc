import BlockSync.Chain.Memory

/-! What pushing a block onto a chain in memory can come to, and what its store then holds. -/

namespace BlockSync.Chain

/-- An engine's answer to a pushed block that is no reason to shut down. -/
def Benign : PushResult → Prop
  | .ok _ => True
  | .error fault => fault = .unlinkable ∨ fault.isAlreadyKnown = true

namespace Memory

inductive Pushed (m : Memory) (raw : Bytes) : Memory × PushResult → Prop
  | malformed {fault} : Header.ofBlock raw = .error fault →
      Pushed m raw (m, .error (.other s!"malformed block header: {fault.message}"))
  | known {header} : Header.ofBlock raw = .ok header →
      (m.blocks.get? header.blockNum).map (·.id) = some header.id →
      Pushed m raw
        (m, .error (.forkDatabase s!"{ChainFault.alreadyKnown}: {header.id.toHex}"))
  | unlinkable {header} : Header.ofBlock raw = .ok header →
      header.previous ≠ m.headId ∨ header.blockNum ≠ m.headNum + 1 →
      Pushed m raw (m, .error .unlinkable)
  | linked {header} (text : Option String) : Header.ofBlock raw = .ok header →
      (m.blocks.get? header.blockNum).map (·.id) ≠ some header.id →
      header.previous = m.headId → header.blockNum = m.headNum + 1 →
      Pushed m raw (m.extend ⟨header.blockNum, header.id, raw⟩, .ok text)

theorem pushed (m : Memory) (raw : Bytes) (wantStatistics : Bool) :
    Pushed m raw (m.push raw wantStatistics) := by
  unfold push
  split
  · next hd => exact .malformed hd
  next header hd =>
  dsimp only
  split
  · next hk => exact .known hd hk
  next hk =>
  split
  · next hl => exact .unlinkable hd hl
  · next hl =>
    rw [not_or, Decidable.not_not, Decidable.not_not] at hl
    exact .linked _ hd hk hl.1 hl.2

theorem isAlreadyKnown_forkDatabase (text : String) :
    (ChainFault.forkDatabase s!"{ChainFault.alreadyKnown}: {text}").isAlreadyKnown = true := by
  have h : (s!"{ChainFault.alreadyKnown}: {text}").toList =
      ChainFault.alreadyKnown.toList ++ (": ".toList ++ text.toList) := by
    simp only [toString, String.toList_append, List.append_assoc]
  rw [ChainFault.isAlreadyKnown, h]
  exact List.isPrefixOf_iff_prefix.mpr (List.prefix_append _ _)

theorem push_benign {m : Memory} {raw : Bytes} {header : Header} (wantStatistics : Bool)
    (hd : Header.ofBlock raw = .ok header) : Benign (m.push raw wantStatistics).2 := by
  have hp := pushed m raw wantStatistics
  generalize m.push raw wantStatistics = p at hp
  cases hp with
  | malformed he =>
    rw [hd] at he
    cases he
  | known => exact .inr (isAlreadyKnown_forkDatabase _)
  | unlinkable => exact .inl rfl
  | linked => trivial

def Genuine (P : Header → Prop) (m : Memory) : Prop :=
  ∀ b ∈ m.blocks, ∃ header, Header.ofBlock b.raw = .ok header ∧
    header.blockNum = b.num ∧ header.id = b.id ∧ P header

end Memory

namespace Store

variable {b c : StoredBlock} {s : Store} {num n : UInt32}

theorem mem_insert (h : b ∈ insert c s) : b = c ∨ b ∈ s := by
  induction s with
  | nil => exact .inl (List.mem_singleton.mp h)
  | cons d rest ih =>
    unfold insert at h
    split at h
    · exact List.mem_cons.mp h
    split at h
    · exact (List.mem_cons.mp h).imp_right (List.mem_cons_of_mem d)
    · rcases List.mem_cons.mp h with rfl | h
      · exact .inr List.mem_cons_self
      · exact (ih h).imp_right (List.mem_cons_of_mem d)

theorem mem_of_get? (h : s.get? num = some b) : b ∈ s ∧ b.num = num := by
  refine ⟨List.mem_of_find?_eq_some h, ?_⟩
  simpa using List.find?_some h

end Store

namespace Memory

variable {m : Memory}

theorem mem_extend {b c : StoredBlock} (h : b ∈ (m.extend c).blocks) : b = c ∨ b ∈ m.blocks :=
  Store.mem_insert (List.mem_filter.mp h).1

theorem Genuine.push {P : Header → Prop} (h : m.Genuine P) {raw : Bytes} (wantStatistics : Bool)
    (hraw : ∀ header, Header.ofBlock raw = .ok header → P header) :
    (m.push raw wantStatistics).1.Genuine P := by
  have hp := pushed m raw wantStatistics
  generalize m.push raw wantStatistics = p at hp
  cases hp with
  | malformed | known | unlinkable => exact h
  | @linked header _ hd =>
    intro b hb
    rcases mem_extend hb with rfl | hb
    · exact ⟨header, hd, rfl, rfl, hraw header hd⟩
    · exact h b hb

/-- Chains that come from pushing blocks onto an empty store, whatever its head. -/
inductive Reachable : Memory → Prop
  | empty {m : Memory} : m.blocks = [] → Reachable m
  | push {m : Memory} (raw : Bytes) (wantStatistics : Bool) : Reachable m →
      Reachable (m.push raw wantStatistics).1

theorem Reachable.genuine (h : m.Reachable) : m.Genuine fun _ => True := by
  induction h with
  | empty he =>
    intro b hb
    rw [he] at hb
    cases hb
  | push raw wantStatistics _ ih => exact ih.push wantStatistics fun _ _ => trivial

theorem libNum_le (m : Memory) : m.libNum ≤ m.headNum := by
  rw [UInt32.le_iff_toNat_le, libNum, toNat_satSub]
  omega

end Memory

end BlockSync.Chain
