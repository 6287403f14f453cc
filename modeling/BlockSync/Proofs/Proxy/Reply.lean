import BlockSync.Proofs.Proxy.Tunnel

/-! A tunnel counts as open only behind a whole reply that agrees to it. A program that fails as
soon as the stream ends too early for it fails on every part of what it takes in when it succeeds,
and the client's side of the exchange is such a program. -/

namespace BlockSync.Stream

variable {ε α β : Type} {bad : ε → Prop}

/-- Whether a program fails in a certain way, and at once, where the stream ends too early for it. -/
def Minds (bad : ε → Prop) : Program interface (Except ε α) → Prop
  | .done _ => True
  | .ask (.send _) next => ∀ sent, Minds bad (next sent)
  | .ask (.receive _) next =>
    (∃ e, next none = .done (.error e) ∧ bad e) ∧ ∀ bytes, Minds bad (next (some bytes))

theorem Minds.bind_run {p : ExceptT ε (Program interface) α}
    {f : α → ExceptT ε (Program interface) β} (hp : Minds bad p.run)
    (hf : ∀ a, Minds bad (f a).run) : Minds bad (p >>= f).run := by
  change Minds bad (Program.bind p.run (ExceptT.bindCont f))
  generalize p.run = q at hp
  induction q with
  | done result =>
    cases result with
    | ok a => exact hf a
    | error e => trivial
  | ask op next ih =>
    cases op with
    | send bytes => exact fun sent => ih sent (hp sent)
    | receive count =>
      obtain ⟨⟨e, hnone, he⟩, hsome⟩ := hp
      refine ⟨⟨e, ?_, he⟩, fun bytes => ih (some bytes) (hsome bytes)⟩
      dsimp only
      rw [hnone]
      rfl

theorem rest_suffix (p : Program interface α) (input : Bytes) :
    (run p input).rest <:+ input := by
  induction p generalizing input with
  | done a => exact List.suffix_refl input
  | ask op next ih =>
    cases op with
    | send bytes => exact ih true input
    | receive count =>
      rw [run]
      split
      · exact (ih none []).trans (List.nil_suffix)
      · exact (ih _ _).trans (List.drop_suffix count input)

/-- A program that succeeds fails wherever what it takes in breaks off. -/
theorem Minds.run_of_cut {p : Program interface (Except ε α)} (hp : Minds bad p)
    {consumed part rest : Bytes} {a : α} (hok : (run p (consumed ++ rest)).result = .ok a)
    (hrest : (run p (consumed ++ rest)).rest = rest) (hpart : part <+: consumed)
    (hne : part ≠ consumed) : ∃ e, (run p part).result = .error e ∧ bad e := by
  induction p generalizing consumed part with
  | done result =>
    have hnone : consumed = [] := List.append_left_eq_self.mp hrest
    subst hnone
    exact absurd (List.prefix_nil.mp hpart) hne
  | ask op next ih =>
    cases op with
    | send bytes => exact ih true (hp true) hok hrest hpart hne
    | receive count =>
      obtain ⟨⟨e, hnone, he⟩, hsome⟩ := hp
      rw [run] at hok hrest
      split at hok
      · rw [hnone] at hok
        cases hok
      next hlong =>
      rw [if_neg hlong] at hrest
      -- What is left in the end is left now, so that all of this part is taken in.
      have hleft := (rest_suffix (next (some ((consumed ++ rest).take count)))
        ((consumed ++ rest).drop count)).length_le
      rw [hrest, List.length_drop, List.length_append] at hleft
      rw [List.length_append] at hlong
      have hcount : count ≤ consumed.length := by omega
      rw [List.take_append_of_le_length hcount, List.drop_append_of_le_length hcount] at hok hrest
      rw [run]
      split
      · exact ⟨e, by rw [hnone]; rfl, he⟩
      next hpartLong =>
      obtain ⟨lost, rfl⟩ := hpart
      have hpartCount : count ≤ part.length := Nat.le_of_not_lt hpartLong
      rw [List.take_append_of_le_length hpartCount, List.drop_append_of_le_length hpartCount]
        at hok hrest
      refine ih _ (hsome _) hok hrest (List.prefix_append _ _) fun hsame => hne ?_
      rw [List.append_right_eq_self.mp hsame.symm, List.append_nil]

theorem of_run_bind_ok {p : ExceptT ε (Program interface) α}
    {f : α → ExceptT ε (Program interface) β} {input : Bytes} {b : β}
    (h : (run (p >>= f).run input).result = .ok b) :
    ∃ a written rest, run p.run input = ⟨.ok a, written, rest⟩ ∧
      (run (f a).run rest).result = .ok b := by
  rcases hp : run p.run input with ⟨result, written, rest⟩
  cases result with
  | ok a =>
    rw [run_bind_ok hp f] at h
    exact ⟨a, written, rest, rfl, h⟩
  | error e =>
    rw [run_bind_error hp f] at h
    cases h

theorem written_bind_run {p : ExceptT ε (Program interface) α}
    {f : α → ExceptT ε (Program interface) β} (hp : ∀ input, (run p.run input).written = [])
    (hf : ∀ a input, (run (f a).run input).written = []) (input : Bytes) :
    (run (p >>= f).run input).written = [] := by
  have hwritten := hp input
  rcases hrun : run p.run input with ⟨result, written, rest⟩
  rw [hrun] at hwritten
  change written = [] at hwritten
  subst hwritten
  cases result with
  | ok a =>
    rw [run_bind_ok hrun]
    exact hf a rest
  | error e => rw [run_bind_error hrun]

end BlockSync.Stream

namespace BlockSync.Socks5

open BlockSync.Stream (Minds Transcript run run_bind_ok run_bind_error of_run_bind_ok
  written_bind_run)

def Fault.OfStream (fault : Fault) : Prop := fault = .ended ∨ fault = .unsized

/-- A reply to the request to connect, from its first octet to its last: version, code, a reserved
octet, the type of the bound address, that address and a port. An address whose type is not IPv4
stands behind its length. -/
inductive IsReply (code : UInt8) : Bytes → Prop
  | ipv4 (version reserved : UInt8) {address port : Bytes} :
      address.length = 4 → port.length = 2 →
      IsReply code ([version, code, reserved, 1] ++ (address ++ port))
  | sized (version reserved : UInt8) {addressType length : UInt8} {address port : Bytes} :
      addressType ≠ 1 → address.length = length.toNat → port.length = 2 →
      IsReply code ([version, code, reserved, addressType] ++ (length :: (address ++ port)))

def readReply (target : Ipv4) (port : UInt16) : ExceptT Fault (Program Stream.interface) Unit := do
  let head ← receive 4 .ended
  let length ← boundLength (head.getD 3 0)
  let _ ← receive (length + 2) .ended
  let code := head.getD 1 0
  if code ≠ 0 then throw (.connectRefused target port code)

section

variable (target : Ipv4) (port : UInt16) {input part rest written : Bytes}

theorem of_run_receive_ok {count : Nat} {atEnd : Fault}
    (h : run (receive count atEnd).run input = ⟨.ok part, written, rest⟩) :
    part.length = count ∧ input = part ++ rest := by
  rw [run_receive] at h
  split at h
  · cases h
  next hlong =>
  cases h
  exact ⟨List.length_take_of_le (Nat.le_of_not_lt hlong), (List.take_append_drop _ _).symm⟩

theorem of_run_boundLength_ok {addressType : UInt8} {length : Nat}
    (h : run (boundLength addressType).run input = ⟨.ok length, written, rest⟩) :
    addressType = 1 ∧ length = 4 ∧ input = rest ∨
      addressType ≠ 1 ∧ ∃ first : UInt8, length = first.toNat ∧ input = first :: rest := by
  by_cases htype : addressType = 1
  · rw [boundLength, if_pos htype] at h
    cases h
    exact .inl ⟨htype, rfl, rfl⟩
  · cases input with
    | nil =>
      rw [boundLength, if_neg htype, run_bind_error (run_receive 1 .unsized [])] at h
      cases h
    | cons first rest' =>
      rw [run_boundLength htype] at h
      cases h
      exact .inr ⟨htype, first, rfl, rfl⟩

theorem run_handshake_of_taken (rest : Bytes) :
    run (handshake target port) ([5, 0] ++ rest) =
      (run (readReply target port).run rest).after (greeting ++ connectRequest target port) := by
  have hmethod : ([5, 0] : Bytes).length = 2 := rfl
  rw [handshake, exchange, run_bind_ok (run_send _ _),
    run_bind_ok (run_receive_part .ended hmethod _)]
  simp only [ne_eq, not_true_eq_false, if_false]
  rw [run_bind_ok (run_send _ _)]
  simp only [Transcript.after, List.nil_append, List.append_assoc]
  rfl

theorem run_handshake_of_refused (h : ¬ [5, 0] <+: input) :
    (run (handshake target port) input).written = greeting ∧
      ∃ fault, (run (handshake target port) input).result = .error fault := by
  rw [handshake, exchange, run_bind_ok (run_send _ _)]
  have hreceive := run_receive 2 .ended input
  split at hreceive
  · rw [run_bind_error hreceive]
    exact ⟨rfl, .ended, rfl⟩
  next hlong =>
  have hother : input.take 2 ≠ [5, 0] := fun heq => h (heq ▸ List.take_prefix 2 input)
  rw [run_bind_ok hreceive, if_pos hother, run_bind_error rfl]
  exact ⟨rfl, _, rfl⟩

theorem run_readReply (version code reserved addressType : UInt8) (before : Bytes) {length : Nat}
    (hlength : run (boundLength addressType).run (before ++ (part ++ rest)) =
      ⟨.ok length, [], part ++ rest⟩) (hpart : part.length = length + 2) :
    run (readReply target port).run
        ([version, code, reserved, addressType] ++ (before ++ (part ++ rest))) =
      ⟨if code ≠ 0 then .error (.connectRefused target port code) else .ok (), [], rest⟩ := by
  have hhead : [version, code, reserved, addressType].length = 4 := rfl
  rw [readReply, run_bind_ok (run_receive_part .ended hhead _)]
  change Transcript.after [] (run (ExceptT.run (boundLength addressType >>= _)) _) = _
  rw [run_bind_ok hlength, run_bind_ok (run_receive_part .ended hpart _)]
  change Transcript.after [] (run (ExceptT.run (if code ≠ 0 then _ else _)) rest) = _
  split <;> rfl

theorem written_receive (count : Nat) (atEnd : Fault) (input : Bytes) :
    (run (receive count atEnd).run input).written = [] := by
  rw [run_receive]
  split <;> rfl

theorem written_readReply (input : Bytes) :
    (run (readReply target port).run input).written = [] := by
  refine written_bind_run (written_receive 4 _) (fun head => ?_) input
  refine written_bind_run (fun input => ?_) fun length => ?_
  · unfold boundLength
    split
    · rfl
    · exact written_bind_run (written_receive 1 _) (fun _ _ => rfl) input
  · refine written_bind_run (written_receive _ _) fun _ input => ?_
    dsimp only
    split <;> rfl

theorem code_eq_zero_of_ok {code : UInt8} {fault : Fault}
    (h : (if code ≠ 0 then .error fault else .ok () : Except Fault Unit) = .ok ()) : code = 0 := by
  split at h
  · cases h
  · next hcode => exact Decidable.not_not.mp hcode

theorem run_readReply_of_isReply {reply : Bytes} (h : IsReply 0 reply) (rest : Bytes) :
    run (readReply target port).run (reply ++ rest) = ⟨.ok (), [], rest⟩ := by
  cases h with
  | @ipv4 _ _ address boundPort haddress hport =>
    have hlength : run (boundLength 1).run ([] ++ ((address ++ boundPort) ++ rest)) =
        ⟨.ok 4, [], (address ++ boundPort) ++ rest⟩ := rfl
    have hpart : (address ++ boundPort).length = 4 + 2 := by
      rw [List.length_append, haddress, hport]
    exact run_readReply _ _ _ _ _ _ [] hlength hpart
  | @sized _ _ _ length address boundPort htype haddress hport =>
    have hlength := run_boundLength htype length ((address ++ boundPort) ++ rest)
    have hpart : (address ++ boundPort).length = length.toNat + 2 := by
      rw [List.length_append, haddress, hport]
    exact run_readReply _ _ _ _ _ _ [length] hlength hpart

theorem isReply_of_run_readReply
    (h : (run (readReply target port).run input).result = .ok ()) :
    ∃ reply, IsReply 0 reply ∧ input = reply ++ (run (readReply target port).run input).rest := by
  obtain ⟨head, _, rest₁, hhead, h₁⟩ := of_run_bind_ok h
  obtain ⟨length, _, rest₂, hlength, h₂⟩ := of_run_bind_ok h₁
  obtain ⟨bound, _, rest₃, hbound, -⟩ := of_run_bind_ok h₂
  obtain ⟨hfour, rfl⟩ := of_run_receive_ok hhead
  obtain ⟨hpart, rfl⟩ := of_run_receive_ok hbound
  match head, hfour with
  | [version, code, reserved, addressType], _ =>
    obtain ⟨address, boundPort, rfl, haddress, hport⟩ :
        ∃ address boundPort, bound = address ++ boundPort ∧ address.length = length ∧
          boundPort.length = 2 := by
      refine ⟨bound.take length, bound.drop length, (List.take_append_drop _ _).symm, ?_, ?_⟩
      · rw [List.length_take, hpart]
        omega
      · rw [List.length_drop, hpart]
        omega
    rcases of_run_boundLength_ok hlength with ⟨rfl, rfl, rfl⟩ | ⟨htype, first, rfl, rfl⟩
    · have hlength : run (boundLength 1).run ([] ++ ((address ++ boundPort) ++ rest₃)) =
          ⟨.ok 4, [], (address ++ boundPort) ++ rest₃⟩ := rfl
      have hrun := run_readReply target port version code reserved 1 []
        hlength hpart
      rw [List.nil_append] at hrun
      rw [hrun] at h ⊢
      obtain rfl := code_eq_zero_of_ok h
      exact ⟨_, .ipv4 version reserved haddress hport, by simp only [List.append_assoc]⟩
    · change addressType ≠ 1 at htype
      have hlength := run_boundLength htype first ((address ++ boundPort) ++ rest₃)
      have hrun := run_readReply target port version code reserved _ [first]
        hlength hpart
      rw [List.singleton_append] at hrun
      rw [hrun] at h ⊢
      obtain rfl := code_eq_zero_of_ok h
      exact ⟨_, .sized version reserved htype haddress hport,
        by simp only [List.append_assoc, List.cons_append]⟩

theorem minds_send (bytes : Bytes) : Minds Fault.OfStream (send bytes).run := by
  intro sent
  cases sent <;> trivial

theorem minds_receive (count : Nat) {atEnd : Fault} (h : atEnd.OfStream) :
    Minds Fault.OfStream (receive count atEnd).run :=
  ⟨⟨atEnd, rfl, h⟩, fun _ => trivial⟩

theorem minds_boundLength (addressType : UInt8) :
    Minds Fault.OfStream (boundLength addressType).run := by
  unfold boundLength
  split
  · trivial
  · exact (minds_receive 1 (.inr rfl)).bind_run fun _ => trivial

theorem minds_handshake :
    Minds Fault.OfStream (handshake target port) := by
  have hended : Fault.ended.OfStream := .inl rfl
  refine (minds_send greeting).bind_run fun _ => ?_
  refine (minds_receive 2 hended).bind_run fun method => ?_
  split
  · trivial
  refine (minds_send _).bind_run fun _ => (minds_receive 4 hended).bind_run fun head => ?_
  refine (minds_boundLength _).bind_run fun length => (minds_receive _ hended).bind_run fun _ => ?_
  dsimp only
  split <;> trivial

end

/-- Whatever a proxy says and wherever it breaks off: the client writes its greeting, and its request
exactly when the first two octets take the method. It succeeds exactly when then a whole reply with
code zero has come, of which nothing is left; and on whatever it took in for that, it fails with a
fault of the stream if the last of it is missing. -/
theorem success_needs_whole_reply (target : Ipv4) (port : UInt16) (input : Bytes) :
    let t := run (handshake target port) input
    (∃ high low : UInt8, high.toNat * 256 + low.toNat = port.toNat ∧
      t.written = [5, 1, 0] ++
        if [5, 0] <+: input then [5, 1, 0, 1] ++ target.octets ++ [high, low] else []) ∧
    (t.result = .ok () ↔ ∃ reply, IsReply 0 reply ∧ input = [5, 0] ++ reply ++ t.rest) ∧
    (t.result = .ok () → ∀ consumed part, input = consumed ++ t.rest → part <+: consumed →
      part ≠ consumed →
      ∃ fault, (run (handshake target port) part).result = .error fault ∧ fault.OfStream) := by
  intro t
  refine ⟨⟨UInt8.ofNat (port.toNat / 256), UInt8.ofNat port.toNat, ?_, ?_⟩, ?_, ?_⟩
  · have hbound := port.toNat_lt
    rw [UInt8.toNat_ofNat', UInt8.toNat_ofNat']
    omega
  · by_cases htaken : [5, 0] <+: input
    · obtain ⟨rest, rfl⟩ := htaken
      rw [if_pos (List.prefix_append _ _)]
      have hrun : t = _ := run_handshake_of_taken target port rest
      rw [hrun, Transcript.after, written_readReply, List.append_nil]
      rfl
    · rw [if_neg htaken]
      exact (run_handshake_of_refused target port htaken).1
  · constructor
    · intro hok
      by_cases htaken : [5, 0] <+: input
      · obtain ⟨rest, rfl⟩ := htaken
        have hrun : t = _ := run_handshake_of_taken target port rest
        rw [hrun] at hok ⊢
        obtain ⟨reply, hreply, hrest⟩ := isReply_of_run_readReply target port hok
        exact ⟨reply, hreply, by rw [List.append_assoc]; exact congrArg _ hrest⟩
      · obtain ⟨fault, hfault⟩ := (run_handshake_of_refused target port htaken).2
        cases hfault.symm.trans hok
    · rintro ⟨reply, hreply, hinput⟩
      rw [List.append_assoc] at hinput
      have hrun : t = _ := congrArg (run (handshake target port)) hinput
      rw [hrun, run_handshake_of_taken, run_readReply_of_isReply _ _ hreply]
      rfl
  · intro hok consumed part hinput hpart hne
    have hrun : t = run (handshake target port) (consumed ++ t.rest) :=
      congrArg (run (handshake target port)) hinput
    have hresult := (congrArg Transcript.result hrun).symm.trans hok
    have hrest := (congrArg Transcript.rest hrun).symm
    exact (minds_handshake target port).run_of_cut hresult hrest hpart hne

namespace Hosted

def agreement : Bytes := [5, 0, 5, 0, 0, 3, 4, 104, 111, 115, 116, 0, 80]

/-- Octets of the tunnel. -/
def tunnel : Bytes := [112, 101, 101, 114]

end Hosted

/-- The agreement without its last octet is not enough. -/
theorem success_needs_whole_reply_of_name :
    let t := run (handshake ⟨10, 0, 0, 7⟩ 9876) (Hosted.agreement ++ Hosted.tunnel)
    t.result = .ok () ∧ t.rest = Hosted.tunnel ∧
      ∃ fault, (run (handshake ⟨10, 0, 0, 7⟩ 9876) Hosted.agreement.dropLast).result =
        .error fault ∧ fault.OfStream := by
  have hok : (run (handshake ⟨10, 0, 0, 7⟩ 9876) (Hosted.agreement ++ Hosted.tunnel)).result =
      .ok () := rfl
  have hcut := (success_needs_whole_reply ⟨10, 0, 0, 7⟩ 9876
    (Hosted.agreement ++ Hosted.tunnel)).2.2 hok Hosted.agreement
  exact ⟨hok, rfl, hcut _ rfl (List.dropLast_prefix _) (by decide)⟩

end BlockSync.Socks5
