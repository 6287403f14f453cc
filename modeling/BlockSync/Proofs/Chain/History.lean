import BlockSync.Proofs.Chain.Storage

/-! What a chain says at different moments of a run, and what runs have in common that differ only
in blocks that are refused. -/

namespace BlockSync.Chain.Memory

variable {start m : Memory} {bs : Store} {os os' : List Offer} {num : UInt32} {x y : Checksum}

theorem after_accepted (m : Memory) (os : List Offer) : m.after (m.accepted os) = m.after os := by
  induction os generalizing m with
  | nil => rfl
  | cons o os ih =>
    rcases next_cases m o with ⟨hno, hsame⟩ | ⟨_, hok, -⟩
    · simp only [accepted, hno, after, hsame]
      exact ih m
    · simp only [accepted, hok, if_true, after]
      exact ih (m.next o)

theorem results_accepted (m : Memory) (os : List Offer) :
    m.results (m.accepted os) = (m.results os).filter (·.isOk) := by
  induction os generalizing m with
  | nil => rfl
  | cons o os ih =>
    rcases next_cases m o with ⟨hno, hsame⟩ | ⟨_, hok, -⟩
    · simp only [accepted, hno, results, List.filter_cons, hsame]
      exact ih m
    · simp only [accepted, hok, if_true, results, List.filter_cons]
      rw [ih]

def Ascends : Nat → Checksum → List Bytes → Prop
  | _, _, [] => True
  | num, id, raw :: rest =>
    ∃ header, Header.ofBlock raw = .ok header ∧ header.previous = id ∧
      header.blockNum.toNat = num + 1 ∧ Ascends (num + 1) header.id rest

theorem ascends_accepted (m : Memory) (os : List Offer)
    (hroom : m.headNum.toNat + (m.accepted os).length < UInt32.size) :
    Ascends m.headNum.toNat m.headId ((m.accepted os).map (·.raw)) := by
  induction os generalizing m with
  | nil => trivial
  | cons o os ih =>
    rcases next_cases m o with ⟨hno, hsame⟩ | ⟨header, hok, hd, hprev, hnum, hnext⟩
    · simp only [accepted, hno, hsame] at hroom ⊢
      exact ih m hroom
    · simp only [accepted, hok, if_true, List.length_cons, List.map_cons] at hroom ⊢
      have htop := toNat_blockNum_of_lt hnum (by omega)
      have hhead : (m.next o).headNum.toNat = m.headNum.toNat + 1 := by
        rw [hnext]
        exact htop
      have hid : (m.next o).headId = header.id := by
        rw [hnext]
        rfl
      have hrest := ih (m.next o) (by omega)
      rw [hhead, hid] at hrest
      exact ⟨header, hd, hprev, htop, hrest⟩

def Named (start : Memory) (bs : Store) (num : UInt32) (x : Checksum) : Prop :=
  num = start.headNum ∧ x = start.headId ∨ ∃ b ∈ bs, b.num = num ∧ b.id = x

theorem Named.append (h : start.Named bs num x) (more : Store) :
    start.Named (more ++ bs) num x := by
  rcases h with h | ⟨b, hb, h⟩
  · exact .inl h
  · exact .inr ⟨b, List.mem_append_right more hb, h⟩

theorem Named.unique (hn : Store.Numbered start.headNum.toNat bs) (hx : start.Named bs num x)
    (hy : start.Named bs num y) : x = y := by
  have habove {b : StoredBlock} (hb : b ∈ bs) : b.num ≠ start.headNum := by
    intro heq
    have := (hn.bounds hb).1
    rw [heq] at this
    omega
  rcases hx with ⟨hnum, rfl⟩ | ⟨b, hb, hnum, rfl⟩ <;>
    rcases hy with ⟨hnum', rfl⟩ | ⟨c, hc, hnum', rfl⟩
  · rfl
  · exact absurd (hnum'.trans hnum) (habove hc)
  · exact absurd (hnum.trans hnum') (habove hb)
  · rw [hn.eq_of_num_eq hb hc (hnum.trans hnum'.symm)]

theorem Grown.named (h : start.Grown bs m) (hx : m.idAt num = some x) : start.Named bs num x := by
  unfold idAt at hx
  split at hx
  · next hnum =>
    subst hnum
    cases hx
    cases bs with
    | nil => exact .inl ⟨UInt32.toNat_inj.mp h.headNum, h.headId⟩
    | cons b rest =>
      have htop : b.num = m.headNum := by
        rw [← UInt32.toNat_inj, h.headNum, h.numbered.1, List.length_cons, Nat.add_assoc]
      exact .inr ⟨b, List.mem_cons_self, htop, h.headId.symm⟩
  · obtain ⟨b, hb, rfl⟩ := Option.map_eq_some_iff.mp hx
    obtain ⟨hmem, -, hnum⟩ := h.get?.mp hb
    exact .inr ⟨b, hmem, hnum, rfl⟩

theorem idAt_lasts (hstart : start.blocks = [])
    (hroom : start.headNum.toNat + (start.accepted (os ++ os')).length < UInt32.size)
    (hx : (start.after os).idAt num = some x)
    (hy : (start.after (os ++ os')).idAt num = some y) : x = y := by
  rw [accepted_append, List.length_append] at hroom
  obtain ⟨bs, hg, hlen, -⟩ := (grown_start hstart).after os (by omega)
  rw [List.append_nil] at hg
  obtain ⟨more, hg', -, -⟩ := hg.after os' (by rw [hg.headNum]; omega)
  rw [after_append] at hy
  exact ((hg.named hx).append more).unique hg'.numbered (hg'.named hy)

theorem reachable_after (h : m.Reachable) (os : List Offer) : (m.after os).Reachable := by
  induction os generalizing m with
  | nil => exact h
  | cons o os ih => exact ih (h.push o.raw o.wantStatistics)

theorem Reachable.push_stored (h : m.Reachable) {raw : Bytes}
    (hfetch : m.answer (.blockAt num) = some raw) (wantStatistics : Bool) :
    ∃ fault, m.push raw wantStatistics = (m, .error fault) ∧ fault.isAlreadyKnown = true := by
  obtain ⟨b, hb, rfl⟩ := Option.map_eq_some_iff.mp hfetch
  obtain ⟨hmem, hnum⟩ := Store.mem_of_get? hb
  obtain ⟨header, hd, hbn, hid, -⟩ := h.genuine b hmem
  have hknown : (m.blocks.get? header.blockNum).map (·.id) = some header.id := by
    rw [hbn, hnum, hb, hid]
    rfl
  refine ⟨.forkDatabase s!"{ChainFault.alreadyKnown}: {header.id.toHex}", ?_,
    isAlreadyKnown_forkDatabase _⟩
  simp only [Memory.push, hd, hknown, if_true]

/-- What runs of offers to a start keep to. -/
structure Steady (start : Memory) (os : List Offer) : Prop where
  /-- Without the offers that are refused the chain is the same, and so are the other results. -/
  spared : start.after (start.accepted os) = start.after os ∧
    start.results (start.accepted os) = (start.results os).filter (·.isOk)
  linked : Ascends start.headNum.toNat start.headId ((start.accepted os).map (·.raw))
  lasting : ∀ os₁ os₂ num x y, os₁ <+: os → os₂ <+: os →
    (start.after os₁).answer (.idAt num) = some x →
    (start.after os₂).answer (.idAt num) = some y → x = y
  known : ∀ os' num raw wantStatistics, os' <+: os →
    (start.after os').answer (.blockAt num) = some raw →
    ∃ fault, (start.after os').push raw wantStatistics = (start.after os', .error fault) ∧
      fault.isAlreadyKnown = true

/-- Refused blocks leave no trace, accepted ones link, and no number is given another block. -/
theorem steady_after (hstart : start.blocks = []) (os : List Offer)
    (hroom : start.headNum.toNat + (start.accepted os).length < UInt32.size) :
    start.Steady os := by
  have hshort {os' : List Offer} (h : os' <+: os) :
      start.headNum.toNat + (start.accepted os').length < UInt32.size := by
    obtain ⟨rest, rfl⟩ := h
    rw [accepted_append, List.length_append] at hroom
    omega
  refine ⟨⟨after_accepted start os, results_accepted start os⟩, ascends_accepted start os hroom,
    ?_, ?_⟩
  · intro os₁ os₂ num x y h₁ h₂ hx hy
    rcases List.prefix_or_prefix_of_prefix h₁ h₂ with ⟨rest, rfl⟩ | ⟨rest, rfl⟩
    · exact idAt_lasts hstart (hshort h₂) hx hy
    · exact (idAt_lasts hstart (hshort h₁) hy hx).symm
  · intro os' num raw wantStatistics _ hfetch
    exact (reachable_after (.empty hstart) os').push_stored hfetch wantStatistics

theorem narrowChain_steady :
    narrowChain.headNum.toNat + (narrowChain.accepted mixedOffers).length < UInt32.size ∧
      narrowChain.Steady mixedOffers :=
  ⟨narrowChain_room, steady_after rfl mixedOffers narrowChain_room⟩

end BlockSync.Chain.Memory
