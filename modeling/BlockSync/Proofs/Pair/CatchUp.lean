import BlockSync.Proofs.Pair.Estrangement
import BlockSync.Proofs.Pair.Hosting
import BlockSync.Proofs.Pair.Lagging
import BlockSync.Proofs.Pair.Silence

/-! Two parties where the chain of one extends the other's. The shorter chain catches up. At any
moment the blocks that are on their way come in order, and as long as an irreversible block is
missing, a range is in view whose last block is being asked for, served or sent. A handshake or a
block that does not fit into a frame is never taken, and ends the way. -/

namespace BlockSync.Session

open BlockSync.Chain (Memory StoredBlock)

variable {a b : Memory}

def Provided (b : Memory) (ranges : List BlockRange) (top : Nat) (n : Node Memory) (s : Standing)
    (o : Outlook) : Prop :=
  b.libNum ≤ n.chain.headNum ∨ ∃ last, Quest b n last ∧ Supplied ranges top s o last

/-- How far two parties have come: the handshake of the longer chain is still to be sent, or is on
its way with no block before it, or was taken. -/
inductive Stage (b : Memory) (ms : List Message) (ranges : List BlockRange) (top : Nat)
    (n : Node Memory) (s : Standing) (o : Outlook) : Prop
  | greeting {m : Handshake} : (∀ k ∈ ms, Word b k) → o.errands = [] → begun o.ahead = [] →
      .handshake m ∈ letters o.ahead → Stage b ms ranges top n s o
  | announced {before m after} : ms = before ++ .handshake m :: after →
      (∀ k ∈ before, Word b k) → Stage b ms ranges top n s o
  | met : Met b n → Provided b ranges top n s o → Stage b ms ranges top n s o

section

variable {ms : List Message} {ranges : List BlockRange} {top : Nat} {n n' : Node Memory}
  {s : Standing} {o : Outlook} {es : List Event} {k : Message}

theorem provided_of_aimed (h : Aimed b n' es) :
    Provided b (ranges ++ requests (letters es)) top n' s o := by
  refine h.imp_right fun ⟨last, hquest, range, hlast, hrange⟩ => ⟨last, hquest, .requested ?_⟩
  refine ⟨range, ?_, hrange⟩
  rw [List.getLast?_append, hlast]
  rfl

theorem Provided.keep (h : Provided b ranges top n s o) (hk : Kept b n n' es) :
    Provided b (ranges ++ requests (letters es)) top n' s o := by
  rw [hk.requests, List.append_nil]
  refine h.imp (fun hle => UInt32.le_trans hle hk.head) fun ⟨last, hquest, hs⟩ => ?_
  exact ⟨last, hk.quest last hquest, hs⟩

theorem Stage.take {settings : Settings} (hs : Greets settings) (he : a.Extends b)
    (hb : b.Linked) (hg : b.Genuine fun _ => True) (hn : a.Tracks b n.chain)
    (h : Stage b (k :: ms) ranges top n s o)
    (hk : Word b k ∨ Block a b k) (hnear : number k ≤ n.chain.headNum.toNat + 1)
    (hr : Reaction Memory.engine settings n k n' es) :
    Heeds a b n k n' es ∧ Stage b ms (ranges ++ requests (letters es)) top n' s o := by
  rcases hk with hw | hblock
  · by_cases hk : ∃ m, k = .handshake m
    · obtain ⟨m, rfl⟩ := hk
      obtain ⟨hheeds, hmet, haim⟩ := heeds_handshake he hn hw hr
      exact ⟨hheeds, .met hmet (provided_of_aimed haim)⟩
    · obtain ⟨hheeds, hmet, hend⟩ := heeds_word he hn hw (fun m hm => hk ⟨m, hm⟩) hr
      refine ⟨hheeds, ?_⟩
      cases h with
      | greeting hwords herr hbegun hm =>
        exact .greeting (List.forall_mem_cons.mp hwords).2 herr hbegun hm
      | @announced before m after hms hwords =>
        cases before with
        | nil =>
          cases hms
          exact absurd ⟨m, rfl⟩ hk
        | cons first before =>
          cases hms
          exact .announced rfl (List.forall_mem_cons.mp hwords).2
      | met hm hprov => exact .met (hmet hm) (hend.elim provided_of_aimed hprov.keep)
  · -- Until the handshake was taken, no block is the next message.
    have hno : ¬ Word b k := by
      intro hw
      cases hblock
      cases hw
    cases h with
    | greeting hwords => exact absurd (hwords k List.mem_cons_self) hno
    | @announced before m after hms hwords =>
      cases before with
      | nil =>
        cases hms
        cases hblock
      | cons first before =>
        cases hms
        exact absurd (hwords k List.mem_cons_self) hno
    | met hm hprov =>
      obtain ⟨hheeds, hmet, hend⟩ := heeds_block hs he hb hg hn hm hblock hnear hr
      exact ⟨hheeds, .met hmet (hend.elim provided_of_aimed hprov.keep)⟩

theorem Stage.host {x y : Party Memory} {o' : Outlook} {later : List Message}
    (hx : Orderly (fun _ => True) x o) (he : a.Extends b) (hg : b.Genuine fun _ => True)
    (hh : Hosting a b top x o) (hasks : ∀ m ∈ mail x, Ask a b top m)
    (hc : Change (fun _ => True) x o es y o')
    (h : Stage b ms (requests (mail x ++ later)) top n x.node.session.standing o) :
    Stage b (ms ++ letters es) (requests (mail y ++ later)) (front top (letters es)) n
      y.node.session.standing o' := by
  cases h with
  | @announced before m after hms hwords =>
    refine .announced (?_ : _ = before ++ .handshake m :: (after ++ letters es)) hwords
    rw [hms, List.append_assoc, List.cons_append]
  | met hm hprov =>
    refine .met hm (hprov.imp_right fun ⟨last, hquest, hs⟩ => ⟨last, hquest, ?_⟩)
    exact hs.change hx he hg hh hasks hc
  | @greeting m hwords herr hbegun hmem =>
    cases hc with
    | take _ _ _ ha | finish ha =>
      rw [ha] at hmem
      exact absurd hmem List.not_mem_nil
    | pass =>
      rw [letters, List.filterMap_nil, List.append_nil]
      exact .greeting hwords herr hbegun hmem
    | @proceed _ _ _ e rest _ ha =>
      have hall : o.ahead = [e] ++ rest := ha
      rw [hall, letters_append] at hmem
      rw [hall, begun, List.filterMap_append, List.append_eq_nil_iff] at hbegun
      rcases List.mem_append.mp hmem with hmem | hmem
      · obtain ⟨e', he', hm⟩ := List.mem_filterMap.mp hmem
        cases List.mem_singleton.mp he'
        have hletters : letters [e] = [.handshake m] := List.filterMap_cons_some hm
        rw [hletters]
        exact .announced rfl hwords
      · refine .greeting ?_ ?_ hbegun.2 hmem
        · refine List.forall_mem_append.mpr ⟨hwords, fun k hk => hh.words k ?_⟩
          rw [hall, letters_append]
          exact List.mem_append_left _ hk
        · exact List.append_eq_nil_iff.mpr ⟨herr, hbegun.1⟩
    | respond heq | retire heq | renew heq =>
      rw [herr] at heq
      exact absurd heq.symm (List.append_ne_nil_of_right_ne_nil _ (List.cons_ne_nil _ _))

end

namespace Pair

/-- The highest block that the shorter chain has or that is on its way. -/
def reach (s : Pair) (l : Outlook) : Nat := front l.after.chain.headNum.toNat (mail s.left)

structure Legible (a b : Memory) (s : Pair) : Prop where
  left : Fits a b → s.left.unread = []
  right : s.right.unread = []
  admitted : ∀ f ∈ s.left.inbox, Frame.admits f.length = true
  leftStays : s.right.parted = false
  rightStays : s.left.parted = false

/-- The shorter chain is on its way to the longer one. -/
structure CatchingUp (a b : Memory) (s : Pair) (l r : Outlook) : Prop where
  left : Orderly (fun _ => True) s.left l
  right : Orderly (fun _ => True) s.right r
  greets : Greets s.left.settings
  legible : s.Legible a b
  behind : Behind a b s.left l
  below : ∀ n, Bars a b n → l.after.chain.headNum < n
  sparing : s.right.Sparing b
  hosting : Hosting a b (s.reach l) s.right r
  incoming : ∀ k ∈ mail s.left, Word b k ∨ Block a b k
  leads : Leads l.after.chain.headNum.toNat (mail s.left)
  asks : ∀ k ∈ mail s.right ++ letters l.ahead, Ask a b (s.reach l) k
  stage : Stage b (mail s.left) (requests (mail s.right ++ letters l.ahead))
    (s.reach l) l.after s.right.node.session.standing r

variable {s : Pair} {l r l' r' : Outlook} {x y : Party Memory} {es : List Event}

theorem Legible.left_move (h : s.Legible a b) (hm : Party.Move Memory.engine s.left es x)
    (hes : ∀ e ∈ es, Mannered (fun _ => True) e)
    (hadmitted : ∀ k ∈ letters es, Admitted k.payload) :
    Legible a b ⟨x, s.right.receive es⟩ where
  left hf := hm.unread_eq.trans (h.left hf)
  right := unread_receive hes hadmitted h.right
  admitted f hf := h.admitted f (hm.inbox_subset hf)
  leftStays := (parted_receive s.right hes).trans h.leftStays
  rightStays := hm.parted_eq.trans h.rightStays

theorem Legible.right_move (h : s.Legible a b) (hm : Party.Move Memory.engine s.right es y)
    (hes : ∀ e ∈ es, Mannered (fun _ => True) e)
    (hadmitted : Fits a b → ∀ k ∈ letters es, Admitted k.payload) :
    Legible a b ⟨s.left.receive es, y⟩ where
  left hf := unread_receive hes (hadmitted hf) (h.left hf)
  right := hm.unread_eq.trans h.right
  admitted f hf := by
    obtain ⟨fs, gs, hr⟩ := s.left.received es
    rw [hr.eq] at hf
    exact (List.mem_append.mp hf).elim (h.admitted f) (hr.admitted f)
  leftStays := hm.parted_eq.trans h.leftStays
  rightStays := (parted_receive s.left hes).trans h.rightStays

theorem CatchingUp.host (he : a.Extends b) (hg : b.Genuine fun _ => True)
    (h : s.CatchingUp a b l r) (hm : Party.Move Memory.engine s.right es y) :
    ∃ r', CatchingUp a b ⟨s.left.receive es, y⟩ l r' := by
  obtain ⟨r', hc, hy, hes⟩ := change_of_move h.right hm
  have hasks : ∀ k ∈ mail s.right, Ask a b (s.reach l) k := fun k hk =>
    h.asks k (List.mem_append_left _ hk)
  obtain ⟨hsent, hleads, hhost⟩ := h.hosting.change h.right he hg hasks hc
  have hmail := mail_receive es s.left
  have hreach : reach ⟨s.left.receive es, y⟩ l = front (s.reach l) (letters es) := by
    rw [reach, reach, hmail, front_append]
  have hlegible := h.legible.right_move hm hes fun hf k hk =>
    (hsent k hk).elim Word.admitted (Block.admitted hf)
  have hgreets : Greets (s.left.receive es).settings := by
    rw [Party.receive_settings]
    exact h.greets
  refine ⟨r', h.left.receive hes, hy, hgreets, hlegible, h.behind.receive es, h.below,
    h.sparing.advance (.move hm), hreach ▸ hhost, ?_, ?_, ?_, ?_⟩
  · rw [hmail]
    exact List.forall_mem_append.mpr ⟨h.incoming, hsent⟩
  · rw [hmail]
    exact leads_append.mpr ⟨h.leads, hleads⟩
  · intro k hk
    rw [hreach]
    refine (h.asks k ?_).mono (le_front _ _)
    exact List.mem_append.mpr ((List.mem_append.mp hk).imp_left (mem_mail_of_change hc))
  · rw [hmail, hreach]
    exact h.stage.host h.right he hg h.hosting hasks hc

theorem CatchingUp.resume (h : s.CatchingUp a b l r)
    (hm : Party.Move Memory.engine s.left es x) (hx : Orderly (fun _ => True) x l')
    (hes : ∀ e ∈ es, Mannered (fun _ => True) e) (hsettings : x.settings = s.left.settings)
    (hb : Behind a b x l') (hafter : l'.after = l.after) (hmail : mail x = mail s.left)
    (hahead : letters es ++ letters l'.ahead = letters l.ahead) :
    CatchingUp a b ⟨x, s.right.receive es⟩ l' r := by
  have hasked :
      mail (s.right.receive es) ++ letters l'.ahead = mail s.right ++ letters l.ahead := by
    rw [mail_receive, List.append_assoc, hahead]
  have hreach : reach ⟨x, s.right.receive es⟩ l' = s.reach l := by rw [reach, hafter, hmail, reach]
  have hsaid : ∀ k ∈ letters es, Ask a b (s.reach l) k := fun k hk => h.asks k <| by
    rw [← hahead]
    exact List.mem_append_right _ (List.mem_append_left _ hk)
  have hsparing : (s.right.receive es).Sparing b :=
    h.sparing.receive fun raw hk => nomatch hsaid _ hk
  refine ⟨hx, h.right.receive hes, hsettings ▸ h.greets,
    h.legible.left_move hm hes fun k hk => (hsaid k hk).admitted, hb, hafter ▸ h.below, hsparing,
    ?_, hmail ▸ h.incoming, ?_, ?_, ?_⟩
  · rw [hreach]
    exact h.hosting.receive es
  · rw [hafter, hmail]
    exact h.leads
  · rw [hasked, hreach]
    exact h.asks
  · rw [hasked, hreach, hmail, hafter, Party.receive_node]
    exact h.stage

theorem CatchingUp.below_of_take (hg : b.Genuine fun _ => True) (h : s.CatchingUp a b l r)
    {f : Frame} {k : Message} {n n' : Node Memory} (hf : f ∈ s.left.inbox)
    (hm : f.message? = some k) (hk : Word b k ∨ Block a b k) (hn : l.after = n)
    (hnear : number k ≤ n.chain.headNum.toNat + 1)
    (hrises : n'.chain.headNum.toNat = max n.chain.headNum.toNat (number k)) :
    ∀ num, Bars a b num → n'.chain.headNum < num := by
  intro num hbars
  have hlt := h.below num hbars
  obtain ⟨-, y, hy, hrefused⟩ := hbars
  rw [hn, UInt32.lt_iff_toNat_lt] at hlt
  rw [UInt32.lt_iff_toNat_lt, hrises]
  rcases hk with hword | @⟨taken, z, hz, -, -⟩
  · rw [hword.number_eq]
    omega
  · obtain ⟨header, hd, hbn, -⟩ := number_of_get? hg hz
    rw [number_signedBlock hd, hbn] at hnear ⊢
    have hpayload := Message.raw_of_ofPayload (Frame.ofPayload_of_message? hm)
    have hadmitted : Admitted f.payload := h.legible.admitted f hf
    have hne : taken ≠ num := by
      rintro rfl
      cases hz.symm.trans hy
      exact hrefused (hpayload ▸ hadmitted)
    rw [Ne, ← UInt32.toNat_inj] at hne
    omega

/-- Taking a message moves the head up to it, if it is a block, and asks for more. -/
theorem CatchingUp.take {f : Frame} {rest : List Frame} {k : Message} {n : Node Memory}
    {ahead : List Event} {work : Nat} (he : a.Extends b) (hb : b.Linked)
    (hg : b.Genuine fun _ => True) (h : s.CatchingUp a b l r)
    (hmove : Party.Move Memory.engine s.left [.took f]
      { s.left with inbox := rest, loop := .busy (handleFrame s.left.settings f) })
    (hi : s.left.inbox = f :: rest) (hm : f.message? = some k) (ha : l.ahead = [])
    (hn : l.after = s.left.node)
    (hreact : Reaction Memory.engine s.left.settings s.left.node k n ahead)
    (hx : Orderly (fun _ => True)
      { s.left with inbox := rest, loop := .busy (handleFrame s.left.settings f) }
      { l with after := n, ahead, work }) :
    CatchingUp a b
      ⟨{ s.left with inbox := rest, loop := .busy (handleFrame s.left.settings f) },
        s.right.receive [.took f]⟩
      { l with after := n, ahead, work } r := by
  have hes : ∀ e ∈ [Event.took f], Mannered (fun _ => True) e :=
    List.forall_mem_singleton.mpr trivial
  have hsaid : ∀ k, k ∉ letters [.took f] := fun _ => List.not_mem_nil
  have hbehind := h.behind
  have hmail := mail_cons hi hm
  have hin := h.incoming
  have hleads := h.leads
  have hstage := h.stage
  have hasks := h.asks
  have hnone : letters [] = [] := rfl
  rw [hmail] at hin hleads hstage
  rw [hn] at hleads hstage
  rw [ha, hnone, List.append_nil] at hasks hstage
  obtain ⟨hk, hin⟩ := List.forall_mem_cons.mp hin
  obtain ⟨hheeds, hstage⟩ := hstage.take h.greets he hb hg hbehind.chain hk hleads.1 hreact
  -- The head rises to the block that is no longer on its way, so the highest one stays.
  have hreach : front n.chain.headNum.toNat (mail { s.left with inbox := rest }) = s.reach l := by
    rw [reach, hmail, hn, hheeds.rises]
    rfl
  have hasked : mail (s.right.receive [.took f]) = mail s.right := by
    rw [mail_receive]
    exact List.append_nil _
  refine ⟨hx, h.right.receive hes, h.greets,
    h.legible.left_move hmove hes fun k hk => absurd hk (hsaid k),
    ⟨hbehind.chain, hheeds.advances, hbehind.errands, hheeds.begun⟩,
    h.below_of_take hg (hi ▸ List.mem_cons_self) hm hk hn hleads.1 hheeds.rises,
    h.sparing.receive fun raw => hsaid _, ?_, hin, ?_, ?_, ?_⟩
  · change Hosting a b (front n.chain.headNum.toNat (mail { s.left with inbox := rest })) _ _
    rw [hreach]
    exact h.hosting.receive _
  · change Leads n.chain.headNum.toNat _
    rw [hheeds.rises]
    exact hleads.2
  · intro m hm
    change Ask a b (front n.chain.headNum.toNat (mail { s.left with inbox := rest })) m
    rw [hasked] at hm
    rcases List.mem_append.mp hm with hm | hm
    · rw [hreach]
      exact hasks m hm
    · exact (hheeds.asks m hm).mono (le_front _ _)
  · change Stage b (mail { s.left with inbox := rest })
      (requests (mail (s.right.receive _) ++ letters _))
      (front n.chain.headNum.toNat (mail { s.left with inbox := rest })) _ _ _
    rw [hreach, hasked, requests_append, Party.receive_node]
    exact hstage

theorem CatchingUp.lag (he : a.Extends b) (hb : b.Linked) (hg : b.Genuine fun _ => True)
    (h : s.CatchingUp a b l r) (hm : Party.Move Memory.engine s.left es x) :
    ∃ l', CatchingUp a b ⟨x, s.right.receive es⟩ l' r := by
  obtain ⟨l', hc, hx, hes⟩ := change_of_move h.left hm
  refine ⟨l', ?_⟩
  have hbehind := h.behind
  cases hc with
  | take hi hf _ ha hn _ hreact => exact h.take he hb hg hm hi hf ha hn hreact hx
  | @pass n loop responders work hv =>
    have hchain : n.chain = s.left.node.chain := congrArg View.chain hv
    refine h.resume hm hx hes rfl ⟨?_, ?_, hbehind.errands, hbehind.begun⟩ rfl rfl rfl
    · exact hchain ▸ hbehind.chain
    · exact hchain ▸ hbehind.ahead
  | @proceed n loop responders e rest work ha hv =>
    have hall : l.ahead = [e] ++ rest := ha
    have hchain : n.chain = (s.left.node.view.apply Memory.engine e).chain :=
      congrArg View.chain hv
    have hahead := hbehind.ahead
    have hbegun := hbehind.begun
    rw [ha] at hahead
    rw [hall, begun, List.filterMap_append, List.append_eq_nil_iff] at hbegun
    obtain ⟨hrest, htracks, -⟩ := hahead.proceed (v := s.left.node.view) hbehind.chain
    refine h.resume hm hx hes rfl ⟨?_, ?_, ?_, hbegun.2⟩ rfl rfl ?_
    · exact hchain ▸ htracks
    · exact hchain ▸ hrest
    · exact List.append_eq_nil_iff.mpr ⟨hbehind.errands, hbegun.1⟩
    · rw [hall, letters_append]
  | finish =>
    exact h.resume hm hx hes rfl
      ⟨hbehind.chain, hbehind.ahead, hbehind.errands, hbehind.begun⟩ rfl rfl rfl
  | respond heq | retire heq | renew heq =>
    rw [hbehind.errands] at heq
    exact absurd heq.symm (List.append_ne_nil_of_right_ne_nil _ (List.cons_ne_nil _ _))

theorem CatchingUp.parting (h : s.CatchingUp a b l r) (hunread : s.left.unread ≠ []) :
    Parting a b s.left.node.chain
      ⟨{ s.left with loop := .busy (do shut; return false) }, s.right.receive []⟩ where
  left := by
    refine ⟨rfl, Loop.resigned_breakOff, fun p hp => ?_, ?_⟩
    · cases hp
      exact .bind carries_withdraws.shut fun _ => trivial
    · exact h.left.responders.trans (by rw [h.behind.errands]; rfl)
  right := h.sparing.receive fun _ => List.not_mem_nil
  name := h.behind.chain.name
  below n hbars := UInt32.lt_of_le_of_lt h.behind.ahead.headNum_le (h.below n hbars)
  unfit hf := hunread (h.legible.left hf)

def Underway (a b : Memory) (s : Pair) : Prop :=
  (∃ l r, s.CatchingUp a b l r) ∨ ∃ m, s.Parting a b m

theorem CatchingUp.step {t : Pair} (he : a.Extends b) (hb : b.Linked)
    (hg : b.Genuine fun _ => True) (h : s.CatchingUp a b l r) (hs : Step s t) :
    t.Underway a b := by
  cases hs with
  | left hx =>
    obtain hm | ⟨-, hunread, rfl, rfl⟩ := h.left.move_or_breakOff h.legible.rightStays hx
    · obtain ⟨l', ht⟩ := h.lag he hb hg hm
      exact .inl ⟨l', r, ht⟩
    · exact .inr ⟨_, h.parting hunread⟩
  | right hy =>
    obtain hm | ⟨-, hunread, -⟩ := h.right.move_or_breakOff h.legible.leftStays hy
    · obtain ⟨r', ht⟩ := h.host he hg hm
      exact .inl ⟨l, r', ht⟩
    · exact absurd h.legible.right hunread

/-- What holds on the way to the longer chain, and where it ends. -/
structure Follows (g h : Origin Memory) (s : Pair) : Prop where
  name : h.chain.nameAt s.left.node.chain.headNum = some s.left.node.chain.headId
  chain : s.right.node.chain = h.chain
  rises : ∀ t, Step s t → s.left.node.chain.headNum ≤ t.left.node.chain.headNum
  accepts : ∀ es x, Party.Advance Memory.engine s.left es x → ∀ raw wantStatistics result,
    .pushed raw wantStatistics result ∈ es → ∃ text, result = .ok text
  /-- No block that is taken lies beyond the next one. -/
  near : ∀ es x, Party.Advance Memory.engine s.left es x → ∀ f raw header, .took f ∈ es →
    f.message? = some (.signedBlock raw) → Header.ofBlock raw = .ok header →
    header.blockNum ≤ satAdd s.left.node.chain.headNum 1
  /-- Where all that is to be said fits into frames, the way ends with no irreversible block
  missing. -/
  ends : Portable g h → (∀ t, ¬ Step s t) →
    s.Silent ∧ h.chain.libNum ≤ s.left.node.chain.headNum

theorem CatchingUp.near (h : s.CatchingUp a b l r)
    (hmove : Party.Move Memory.engine s.left es x) {f : Frame} {raw : Bytes} {header : Header}
    (hf : .took f ∈ es) (hm : f.message? = some (.signedBlock raw))
    (hd : Header.ofBlock raw = .ok header) :
    header.blockNum ≤ satAdd s.left.node.chain.headNum 1 := by
  cases hmove with
  | take hidle _ _ hi =>
    cases List.mem_singleton.mp hf
    obtain ⟨hafter, -⟩ := h.left.loop.of_idle hidle
    have hleads := h.leads
    rw [mail_cons hi hm, hafter] at hleads
    have hnear := hleads.1
    rw [number_signedBlock hd] at hnear
    have hsize := header.blockNum.toNat_lt
    rw [UInt32.le_iff_toNat_le, toNat_satAdd, UInt32.toNat_one, UInt32.size]
    omega
  | proceed _ ho | respond _ ho => exact absurd hf (took_notMem_of_perform f ho)
  | finish | retire | renew => cases hf

/-- Where neither party has anything left to do, no irreversible block is missing. -/
theorem CatchingUp.ends (h : s.CatchingUp a b l r) (hs : s.Silent) :
    b.libNum ≤ s.left.node.chain.headNum := by
  obtain ⟨hafter, hahead, -⟩ := h.left.of_silent hs.left
  obtain ⟨-, hahead', herrands⟩ := h.right.of_silent hs.right
  have hleft : mail s.left = [] := by
    rw [mail, hs.left.inbox, hs.left.unread]
    rfl
  have hright : mail s.right = [] := by
    rw [mail, hs.right.inbox, hs.right.unread]
    rfl
  have hstage := h.stage
  rw [reach, hleft, hright, hahead, hafter] at hstage
  cases hstage with
  | greeting _ _ _ hm =>
    rw [hahead'] at hm
    exact absurd hm List.not_mem_nil
  | announced hms =>
    exact absurd hms.symm (List.append_ne_nil_of_right_ne_nil _ (List.cons_ne_nil _ _))
  | met _ hprov =>
    obtain hlib | ⟨last, hquest, hs⟩ := hprov
    · exact hlib
    -- A range in view would have its last block asked for, at or below the head, or served.
    cases hs with
    | requested hr =>
      obtain ⟨range, hlast, -⟩ := hr
      cases hlast
    | sent _ hle => exact absurd hle (Nat.not_le.mpr (UInt32.lt_iff_toNat_lt.mp hquest.above))
    | served _ hs =>
      cases hs with
      | starting hahead | started hahead => cases hahead'.symm.trans hahead
      | running hmem =>
        rw [herrands] at hmem
        cases hmem

theorem move_or_still {σ : Type} {E : Chain.Engine σ} {x y : Party σ} {es : List Event}
    (h : Party.Advance E x es y) :
    Party.Move E x es y ∨ es = [] ∧ y.node.chain = x.node.chain := by
  cases h with
  | move h => exact .inl h
  | breakOff | leave | sever => exact .inr ⟨rfl, rfl⟩

theorem CatchingUp.follows {o o' : Origin Memory} (h : s.CatchingUp o.chain o'.chain l r) :
    s.Follows o o' where
  name := h.behind.chain.name
  chain := h.hosting.chain
  rises t ht := by
    cases ht with
    | left hx =>
      rcases move_or_still hx with hm | ⟨-, hchain⟩
      · obtain ⟨l', hc, -⟩ := change_of_move h.left hm
        exact (h.behind.rises hc).1
      · exact hchain ▸ UInt32.le_refl _
    | right =>
      rw [Party.receive_node]
      exact UInt32.le_refl _
  accepts es x hx raw wantStatistics result he := by
    rcases move_or_still hx with hm | ⟨rfl, -⟩
    · obtain ⟨l', hc, -⟩ := change_of_move h.left hm
      exact (h.behind.rises hc).2 raw wantStatistics result he
    · cases he
  near es x hx f raw header hf := by
    rcases move_or_still hx with hm | ⟨rfl, -⟩
    · exact h.near hm hf
    · cases hf
  ends _ hstuck := by
    have hs : s.Silent := by
      constructor
      · exact silent_of_stuck h.left fun es x hx => hstuck _ (.left hx)
      · exact silent_of_stuck h.right fun es y hy => hstuck _ (.right hy)
    exact ⟨hs, h.ends hs⟩

theorem Parting.follows {o o' : Origin Memory} {m : Memory} (h : s.Parting o.chain o'.chain m) :
    s.Follows o o' where
  name := h.left.chain.symm ▸ h.name
  chain := h.right.chain
  rises t ht := by
    have hchain := h.left.chain.trans (h.step ht).left.chain.symm
    rw [hchain]
    exact UInt32.le_refl _
  accepts es x hx raw wantStatistics result he := ((h.left.advance hx).2 _ he).elim
  near es x hx f raw header hf := ((h.left.advance hx).2 _ hf).elim
  ends hp := absurd hp.blocks h.unfit

theorem Underway.follows {o o' : Origin Memory} (h : s.Underway o.chain o'.chain) :
    s.Follows o o' := by
  rcases h with ⟨l, r, h⟩ | ⟨m, h⟩
  · exact h.follows
  · exact h.follows

end Pair

end BlockSync.Session
