import BlockSync.Proxy.Socks5
import BlockSync.Wire.Identity

/-! Where the stream stands after a proxy has agreed to a tunnel. The bound address of its reply is
sized by its type where that is IPv4, and by its first octet otherwise. A name begins with its size,
an IPv6 address does not: then the tunnel begins where that address happens to say. -/

namespace BlockSync.Stream

variable {ε α β : Type} {input rest written : Bytes}

/-- The same octets were written before. -/
def Transcript.after (written : Bytes) (t : Transcript α) : Transcript α :=
  { t with written := written ++ t.written }

theorem run_bind (p : Program interface α) (f : α → Program interface β) (input : Bytes) :
    run (p >>= f) input =
      (run (f (run p input).result) (run p input).rest).after (run p input).written := by
  change run (p.bind f) input = _
  induction p generalizing input with
  | done a => rfl
  | ask op next ih =>
    cases op with
    | send bytes =>
      simp only [Program.bind, run, ih, Transcript.after, List.append_assoc]
    | receive count =>
      simp only [Program.bind, run]
      split
      · exact ih none []
      · exact ih _ _

theorem run_bind_ok {p : ExceptT ε (Program interface) α} {a : α}
    (hp : run p.run input = ⟨.ok a, written, rest⟩) (f : α → ExceptT ε (Program interface) β) :
    run (p >>= f).run input = (run (f a).run rest).after written := by
  have h := run_bind p.run (ExceptT.bindCont f) input
  rw [hp] at h
  exact h

theorem run_bind_error {p : ExceptT ε (Program interface) α} {e : ε}
    (hp : run p.run input = ⟨.error e, written, rest⟩) (f : α → ExceptT ε (Program interface) β) :
    run (p >>= f).run input = ⟨.error e, written, rest⟩ := by
  have h := run_bind p.run (ExceptT.bindCont f) input
  rw [hp] at h
  exact h.trans (congrArg (Transcript.mk _ · rest) (List.append_nil written))

end BlockSync.Stream

namespace BlockSync.Socks5

open BlockSync.Stream (Transcript run run_bind_ok run_bind_error)

/-- The address that a proxy is bound to, as a reply has it. -/
inductive Bound where
  | ipv4 (address : Ipv4)
  | name (octets : Bytes) (fits : octets.length < 256)
  | ipv6 (address : Octets 16)

namespace Bound

def addressType : Bound → UInt8
  | .ipv4 _ => 1
  | .name _ _ => 3
  | .ipv6 _ => 4

/-- A name stands behind its length. -/
def octets : Bound → Bytes
  | .ipv4 address => address.octets
  | .name octets _ => UInt8.ofNat octets.length :: octets
  | .ipv6 address => address.toList

/-- Whether an address whose type is not IPv4 begins with the number of octets behind the first. -/
def TellsSize : Bound → Prop
  | .ipv4 _ | .name _ _ => True
  | .ipv6 address => address.toList.head? = some 15

end Bound

def portOctets (port : UInt16) : Bytes := [UInt8.ofNat (port.toNat / 256), UInt8.ofNat port.toNat]

def agreement (reserved : UInt8) (bound : Bound) (port : UInt16) : Bytes :=
  [5, 0, reserved, bound.addressType] ++ bound.octets ++ portOctets port

def passOver (addressType : UInt8) : ExceptT Fault (Program Stream.interface) Unit := do
  let length ← boundLength addressType
  let _ ← receive (length + 2) .ended

def Bound.passed : Bound → Nat
  | .ipv4 _ => 4 + 2
  | bound => 1 + ((bound.octets.headD 0).toNat + 2)

section

variable {target : Ipv4} {port : UInt16} {input part rest : Bytes}

theorem run_send (bytes input : Bytes) : run (send bytes).run input = ⟨.ok (), bytes, input⟩ :=
  congrArg (Transcript.mk _ · input) (List.append_nil bytes)

theorem run_receive (count : Nat) (atEnd : Fault) (input : Bytes) :
    run (receive count atEnd).run input =
      if input.length < count then ⟨.error atEnd, [], []⟩
      else ⟨.ok (input.take count), [], input.drop count⟩ := by
  change (if input.length < count then _ else _) = _
  split <;> rfl

theorem run_receive_part {count : Nat} (atEnd : Fault) (h : part.length = count) (rest : Bytes) :
    run (receive count atEnd).run (part ++ rest) = ⟨.ok part, [], rest⟩ := by
  rw [run_receive, if_neg (by rw [List.length_append]; omega), List.take_left' h, List.drop_left' h]

theorem run_handshake (target : Ipv4) (port : UInt16) (reserved addressType : UInt8)
    (rest : Bytes) :
    run (handshake target port) ([5, 0] ++ ([5, 0, reserved, addressType] ++ rest)) =
      (run (passOver addressType).run rest).after (greeting ++ connectRequest target port) := by
  have hmethod : ([5, 0] : Bytes).length = 2 := rfl
  have hhead : [5, 0, reserved, addressType].length = 4 := rfl
  rw [handshake, exchange, run_bind_ok (run_send _ _),
    run_bind_ok (run_receive_part .ended hmethod _)]
  simp only [ne_eq, not_true_eq_false, if_false]
  rw [run_bind_ok (run_send _ _), run_bind_ok (run_receive_part .ended hhead _)]
  simp only [Transcript.after, List.nil_append, List.append_assoc]
  rfl

theorem run_passOver_of_length {addressType : UInt8} {length : Nat}
    (h : run (boundLength addressType).run input = ⟨.ok length, [], rest⟩) :
    run (passOver addressType).run input =
      if rest.length < length + 2 then ⟨.error .ended, [], []⟩
      else ⟨.ok (), [], rest.drop (length + 2)⟩ := by
  have hreceive := run_receive (length + 2) .ended rest
  rw [passOver, run_bind_ok h]
  split
  · next hshort =>
    rw [if_pos hshort] at hreceive
    rw [run_bind_error hreceive]
    rfl
  · next hlong =>
    rw [if_neg hlong] at hreceive
    rw [run_bind_ok hreceive]
    rfl

theorem run_boundLength {addressType : UInt8} (h : addressType ≠ 1) (first : UInt8)
    (rest : Bytes) :
    run (boundLength addressType).run (first :: rest) = ⟨.ok first.toNat, [], rest⟩ := by
  have hfirst : [first].length = 1 := rfl
  rw [boundLength, if_neg h, ← List.singleton_append,
    run_bind_ok (run_receive_part .unsized hfirst _)]
  rfl

theorem run_passOver_sized {addressType : UInt8} (h : addressType ≠ 1) (first : UInt8)
    (rest : Bytes) :
    run (passOver addressType).run (first :: rest) =
      if (first :: rest).length < 1 + (first.toNat + 2) then ⟨.error .ended, [], []⟩
      else ⟨.ok (), [], (first :: rest).drop (1 + (first.toNat + 2))⟩ := by
  rw [run_passOver_of_length (run_boundLength h first rest), Nat.add_comm 1, List.drop_succ_cons,
    List.length_cons]
  simp only [Nat.add_lt_add_iff_right]

theorem run_passOver (bound : Bound) (rest : Bytes) :
    run (passOver bound.addressType).run (bound.octets ++ rest) =
      if (bound.octets ++ rest).length < bound.passed then ⟨.error .ended, [], []⟩
      else ⟨.ok (), [], (bound.octets ++ rest).drop bound.passed⟩ := by
  cases bound with
  | ipv4 address =>
    have hlength : run (boundLength 1).run (address.octets ++ rest) =
        ⟨.ok 4, [], address.octets ++ rest⟩ := rfl
    exact run_passOver_of_length hlength
  | name octets =>
    have hne : (3 : UInt8) ≠ 1 := by decide
    exact run_passOver_sized hne _ _
  | ipv6 address =>
    obtain ⟨octets, hlen⟩ := address
    cases octets with
    | nil => cases hlen
    | cons first octets =>
      have hne : (4 : UInt8) ≠ 1 := by decide
      exact run_passOver_sized hne first _

theorem Bound.tellsSize_iff (bound : Bound) :
    bound.TellsSize ↔ bound.passed = bound.octets.length + 2 := by
  cases bound with
  | ipv4 address => exact iff_of_true trivial rfl
  | name octets fits =>
    refine iff_of_true trivial ?_
    simp only [passed, Bound.octets, List.headD_cons, List.length_cons, UInt8.toNat_ofNat']
    omega
  | ipv6 address =>
    obtain ⟨octets, hlen⟩ := address
    cases octets with
    | nil => cases hlen
    | cons first octets =>
      simp only [TellsSize, passed, Bound.octets, List.head?_cons, List.headD_cons, hlen,
        Option.some.injEq, ← UInt8.toNat_inj]
      change first.toNat = 15 ↔ _
      omega

end

/-- A proxy that agrees leaves the stream at the tunnel's first octet if its address is IPv4 or a
name. An IPv6 address does so only where its first octet happens to be 15. -/
theorem tunnel_is_aligned (target : Ipv4) (port : UInt16) (reserved : UInt8) (bound : Bound)
    (boundPort : UInt16) (tunnel : Bytes) :
    let t := run (handshake target port) ([5, 0] ++ agreement reserved bound boundPort ++ tunnel)
    t.written = greeting ++ connectRequest target port ∧
      (t.result = .ok () ∧ t.rest = tunnel ↔ bound.TellsSize) := by
  have hstream : [5, 0] ++ agreement reserved bound boundPort ++ tunnel =
      [5, 0] ++ ([5, 0, reserved, bound.addressType] ++
        (bound.octets ++ (portOctets boundPort ++ tunnel))) := by
    simp only [agreement, List.append_assoc]
  have hlen : (bound.octets ++ (portOctets boundPort ++ tunnel)).length =
      bound.octets.length + 2 + tunnel.length := by
    simp only [List.length_append, portOctets, List.length_cons, List.length_nil]
    omega
  rw [hstream, run_handshake, run_passOver, bound.tellsSize_iff]
  constructor
  · split <;> exact List.append_nil _
  constructor
  · rintro ⟨hok, hrest⟩
    split at hok
    · cases hok
    next hlong =>
    simp only [if_neg hlong] at hrest
    have hdrop := congrArg List.length hrest
    simp only [Transcript.after, List.length_drop, hlen] at hdrop
    omega
  · intro hpassed
    rw [if_neg (by omega)]
    refine ⟨rfl, ?_⟩
    have hskip : (bound.octets ++ portOctets boundPort).length = bound.passed := by
      rw [List.length_append, hpassed]
      rfl
    simp only [Transcript.after, ← List.append_assoc]
    exact List.drop_left' hskip

/-- Behind an agreement with the IPv6 address of all zeros, most of the address is left in front of
the tunnel. -/
theorem ipv6_address_is_left :
    let t := run (handshake ⟨10, 0, 0, 7⟩ 9876)
      ([5, 0] ++ agreement 0 (.ipv6 (Octets.zero 16)) 0 ++ [1, 2, 3])
    ¬ (t.result = .ok () ∧ t.rest = [1, 2, 3]) := by
  rintro t ⟨-, hrest⟩
  have hleft : t.rest = List.replicate 15 0 ++ [1, 2, 3] := rfl
  exact absurd (hleft.symm.trans hrest) (by decide)

end BlockSync.Socks5
