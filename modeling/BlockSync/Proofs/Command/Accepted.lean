import BlockSync.Command.Job
import BlockSync.Proofs.Config.Given
import BlockSync.Proofs.Network.Calls
import BlockSync.Proofs.Network.Orderly

/-! Settings that were accepted hold good. They are what options, file and defaults say, in this
order; every text in them that is looked at again later is what it was taken for, so that each peer
gets its contact, the proxy is found and the chain begins. -/

namespace BlockSync

open Network (enrolled Site Event Work)

section

variable {ε δ α β : Type} {x : Except ε α}

theorem bind_eq_ok {f : α → Except ε β} {b : β} :
    x >>= f = .ok b ↔ ∃ a, x = .ok a ∧ f a = .ok b := by
  cases x <;> simp [bind, Except.bind]

theorem bind_eq_error {f : α → Except ε β} {e : ε} :
    x >>= f = .error e ↔ x = .error e ∨ ∃ a, x = .ok a ∧ f a = .error e := by
  cases x <;> simp [bind, Except.bind]

theorem map_eq_ok {f : α → β} {b : β} : f <$> x = .ok b ↔ ∃ a, x = .ok a ∧ f a = b := by
  cases x <;> simp [Functor.map, Except.map]

theorem mapError_eq_ok {f : ε → δ} {a : α} : x.mapError f = .ok a ↔ x = .ok a := by
  cases x <;> simp [Except.mapError]

theorem mapError_eq_error {f : ε → δ} {e : δ} :
    x.mapError f = .error e ↔ ∃ cause, x = .error cause ∧ f cause = e := by
  cases x <;> simp [Except.mapError]

end

/-- What a file says, where there is one. -/
def Command.Says (files : String → Option String) : Option String → Given → Prop
  | none, given => given = {}
  | some path, given => ∃ text, files path = some text ∧ Given.ofText text = .ok given

namespace Settings

structure Acceptable (s : Settings) : Prop where
  span : 1 ≤ s.syncFetchSpan.toNat
  peers : ∀ peer ∈ s.peers, ∃ address, Address.ofText peer = .ok address
  proxy : ∀ proxy, s.socks5Proxy = some proxy → ∃ address, Address.ofText proxy = .ok address
  chainId : ∃ id, s.chainIdentity = .ok id

theorem of_checkPeers {peers : List String} (h : checkPeers peers = .ok ()) :
    ∀ peer ∈ peers, ∃ address, Address.ofText peer = .ok address := by
  induction peers with
  | nil => exact fun _ hpeer => nomatch hpeer
  | cons peer rest ih =>
    rw [checkPeers] at h
    split at h
    · next address haddress =>
      intro other hother
      rcases List.mem_cons.mp hother with rfl | hother
      · exact ⟨address, haddress⟩
      · exact ih h other hother
    · cases h

theorem of_checkProxy {proxy? : Option String} (h : checkProxy proxy? = .ok ()) :
    ∀ proxy, proxy? = some proxy → ∃ address, Address.ofText proxy = .ok address := by
  rintro proxy rfl
  rw [checkProxy] at h
  split at h
  · next address haddress => exact ⟨address, haddress⟩
  · cases h

theorem of_validate {s : Settings} (h : s.validate = .ok ()) : s.Acceptable := by
  unfold validate at h
  by_cases hspan : s.syncFetchSpan = 0
  · rw [if_pos hspan] at h
    cases h
  · rw [if_neg hspan] at h
    simp only [bind_eq_ok] at h
    obtain ⟨_, hpeers, _, hproxy, id, hid, -⟩ := h
    constructor
    · apply Nat.pos_of_ne_zero
      intro hzero
      exact hspan (UInt32.toNat_inj.mp hzero)
    · exact of_checkPeers hpeers
    · exact of_checkProxy hproxy
    · exact ⟨id, hid⟩

end Settings

namespace Command

theorem of_loadFile {files : String → Option String} {config : Option String} {s : Settings}
    (h : loadFile files config = .ok s) :
    ∃ given, Says files config given ∧ s = given.settings := by
  cases config with
  | none =>
    cases h
    exact ⟨{}, rfl, rfl⟩
  | some path =>
    rw [loadFile] at h
    cases htext : files path with
    | none =>
      rw [htext] at h
      cases h
    | some text =>
      rw [htext] at h
      obtain ⟨file, hfile, hvalid⟩ := bind_eq_ok.mp (mapError_eq_ok.mp h)
      obtain ⟨_, -, hdone⟩ := bind_eq_ok.mp hvalid
      cases hdone
      rw [mapError_eq_ok, Given.decode_eq] at hfile
      obtain ⟨given, hgiven, rfl⟩ := map_eq_ok.mp hfile
      exact ⟨given, ⟨text, htext, hgiven⟩, rfl⟩

theorem of_loadSettings {files : String → Option String} {net : NetOptions} {s : Settings}
    (h : loadSettings files net = .ok s) :
    s.Acceptable ∧ ∃ given, Says files net.config given ∧ s = overridden given.settings net := by
  obtain ⟨file, hfile, hvalid⟩ := bind_eq_ok.mp h
  obtain ⟨given, hsays, rfl⟩ := of_loadFile hfile
  obtain ⟨_, hchecked, hdone⟩ := bind_eq_ok.mp hvalid
  cases hdone
  exact ⟨Settings.of_validate (mapError_eq_ok.mp hchecked), given, hsays, rfl⟩

theorem startChain_eq_error_iff {s : Settings} (h : s.Acceptable) (head : Option (UInt32 × String))
    (fault : CommandFault) :
    startChain s head = .error fault ↔
      ∃ num text cause, head = some (num, text) ∧
        (Octets.ofHex text : Except Wire.Fault Checksum) = .error cause ∧
        fault = .headId cause := by
  obtain ⟨id, hid⟩ := h.chainId
  rcases head with _ | ⟨num, text⟩
  · have hstart : startChain s none = .ok { chainId := id } := by
      unfold startChain
      rw [hid]
      rfl
    rw [hstart]
    simp
  · have hstart : startChain s (some (num, text)) =
        (Octets.ofHex text).mapError .headId >>= fun headId =>
          .ok (Chain.Memory.ofSnapshot id num headId) := by
      unfold startChain
      rw [hid]
      rfl
    rw [hstart, bind_eq_error, mapError_eq_error]
    constructor
    · rintro (⟨cause, htext, rfl⟩ | ⟨_, _, hnever⟩)
      · exact ⟨num, text, cause, rfl, htext, rfl⟩
      · cases hnever
    · rintro ⟨_, _, cause, ⟨rfl⟩, htext, rfl⟩
      exact .inl ⟨cause, htext, rfl⟩

end Command

namespace Network

section

variable {settings : Settings} {task : TaskId} {s t : Site}

def Contact.IsFor (peer : String) (c : Contact) : Prop :=
  c.peer = peer ∧ Address.ofText peer = .ok c.address

theorem enrolled_of_addresses {peers : List String} (session : SessionId)
    (h : ∀ peer ∈ peers, ∃ address, Address.ofText peer = .ok address) :
    List.Forall₂ Contact.IsFor peers (enrolled peers session) ∧
      (enrolled peers session).map (·.session) = List.range' session peers.length := by
  induction peers generalizing session with
  | nil => exact ⟨.nil, rfl⟩
  | cons peer rest ih =>
    obtain ⟨address, haddress⟩ := h peer List.mem_cons_self
    obtain ⟨hcontacts, hsessions⟩ :=
      ih (session + 1) fun other hother => h other (List.mem_cons_of_mem _ hother)
    have hfirst : enrolled (peer :: rest) session =
        ⟨session, peer, address⟩ :: enrolled rest (session + 1) := by simp [enrolled, haddress]
    rw [hfirst]
    constructor
    · exact .cons ⟨rfl, haddress⟩ hcontacts
    · rw [List.map_cons, hsessions]
      rfl

theorem map_peer_of_isFor {peers : List String} {contacts : List Contact}
    (h : List.Forall₂ Contact.IsFor peers contacts) : contacts.map (·.peer) = peers := by
  induction h with
  | nil => rfl
  | cons hfirst _ ih => rw [List.map_cons, ih, hfirst.1]

/-- How a site stands to the configured peers: their sessions and contacts are added in order, by one
task, which asks for nothing else before all are there; and a contact stays for as long as its peer
is not left. Who wants them added while nobody else does anything has nothing to wait for, and
changes nothing when that was done before. -/
structure Site.Enrolls (settings : Settings) (s : Site) : Prop where
  peers : s.peers <+: settings.peers
  added : s.added <+: enrolled settings.peers 0
  contacts : s.network.contacts = s.added.filter s.Keeps
  before : s.network.initialized = false → s.peers = [] ∧ s.network.contacts = []
  begun : s.network.initialized = true →
    s.peers = settings.peers ∧ s.added = enrolled settings.peers 0 ∨
    ∃ task ∈ s.tasks, s.enroller = some task.id ∧
      ∃ op next, task.program = .ask op next ∧ op.Enrolls
  answers : ∀ task, ∃ next t, Alone settings task (Work.ensure.program settings) s next t
  ensured : ∀ task next t, Alone settings task (Work.ensure.program settings) s next t →
    next = none ∧ t.network.initialized = true ∧
    (s.network.initialized = true → t.bare = s.bare) ∧
    (s.network.initialized = false →
      t.peers = settings.peers ∧ t.network.contacts = enrolled settings.peers 0)

theorem peers_of_added (he : s.Enrolling settings)
    (hnames : (enrolled settings.peers 0).map (·.peer) = settings.peers)
    (hadded : s.added = enrolled settings.peers 0) : s.peers = settings.peers := by
  have hpeers := he.peers
  have hnamed := he.named
  rw [hadded] at hnamed
  rw [hnames] at hpeers hnamed
  exact hpeers.eq_of_length_le hnamed.length_le

theorem enroller_of_orderly (ho : s.Orderly settings) (henroller : s.enroller = some task)
    (hadded : s.added ≠ enrolled settings.peers 0) :
    ∃ t ∈ s.tasks, t.id = task ∧ ∃ op next, t.program = .ask op next ∧ op.Enrolls := by
  obtain ⟨t, ht, rfl, -⟩ := ho.engaged task (.inr ⟨henroller, hadded⟩)
  refine ⟨t, ht, rfl, ?_⟩
  have hhere := ho.here ht
  cases hprogram : t.program with
  | done next =>
    rw [hprogram] at hhere
    cases next with
    | none => exact absurd (hhere.1.enrolled henroller) hadded
    | some next => exact absurd (hhere.2.ready.enrolled henroller) hadded
  | ask op next =>
    rw [hprogram] at hhere
    exact ⟨op, next, rfl, (hhere.1.enrolls henroller).resolve_left hadded⟩

theorem calling_ensure (settings : Settings) (task : TaskId) (s : Site) :
    Calling settings task (fun _ op => op.waits = false) (fun _ _ => True)
      (fun next t => next = none ∧ t.bare = (s.prepared settings).bare)
      (Work.ensure.program settings) s :=
  Calling.bind ((calling_ensureContacts fun _ _ h => h.1).mono fun _ _ ht => Calling.pure ⟨rfl, ht⟩)

theorem enrolls_of_events (hs : Relation.ReflTransGen (Event settings) {} s)
    (hpeers : ∀ peer ∈ settings.peers, ∃ address, Address.ofText peer = .ok address) :
    s.Enrolls settings := by
  have ho := orderly_of_events hs
  have henrolling := ho.fit.enrolling
  have hcontacts := ho.fit.listed.contacts
  have hnames := map_peer_of_isFor (enrolled_of_addresses 0 hpeers).1
  have hnone (hinit : s.network.initialized = false) : s.peers = [] ∧ s.network.contacts = [] := by
    obtain ⟨-, hadded, hnobody⟩ := henrolling.before hinit
    rw [hadded] at hcontacts
    exact ⟨hnobody, hcontacts⟩
  refine ⟨hnames ▸ henrolling.peers, henrolling.added, hcontacts, hnone, fun hinit => ?_,
    fun task => (calling_ensure settings task s).exists_alone, fun task next t ht => ?_⟩
  · obtain ⟨task, henroller⟩ := henrolling.begun hinit
    by_cases hadded : s.added = enrolled settings.peers 0
    · exact .inl ⟨peers_of_added henrolling hnames hadded, hadded⟩
    · obtain ⟨t, ht, rfl, hasks⟩ := enroller_of_orderly ho henroller hadded
      exact .inr ⟨t, ht, henroller, hasks⟩
  · obtain ⟨hnext, hbare⟩ := (calling_ensure settings task s).of_alone ht fun _ => trivial
    refine ⟨hnext, ?_, fun hinit => ?_, fun hinit => ?_⟩
    · refine (congrArg (·.network.initialized) hbare).trans ?_
      cases hinit : s.network.initialized <;> simp [Site.prepared, Site.enroll, Site.bare, hinit]
    · rw [hbare, Site.prepared, if_pos hinit]
    · obtain ⟨hnobody, hempty⟩ := hnone hinit
      have hprepared : s.prepared settings =
          { s with network.initialized := true }.enroll settings.peers :=
        if_neg (by rw [hinit]; exact Bool.false_ne_true)
      rw [hprepared] at hbare
      refine ⟨(congrArg (·.peers) hbare).trans ?_, (congrArg (·.network.contacts) hbare).trans ?_⟩
      · simp [Site.enroll, Site.bare, hnobody, hnames]
      · simp [Site.enroll, Site.bare, hnobody, hempty]

end

end Network

theorem Session.openLink_of_proxy {s : Settings} {text : String} {proxy target : Address}
    (hproxy : s.socks5Proxy = some text) (haddress : Address.ofText text = .ok proxy)
    (hport : target.port ≠ tlsPort) :
    openLink s target = (do
      let now ← Action.instant
      openTunnel proxy target (now + dialTimeout)) := by
  unfold openLink
  simp only [if_neg hport, hproxy, haddress]

/-- Settings that were accepted: each is the option, if it was given, or else what the file says, or
else the default; each peer is an address and gets a contact with a session of its own, in order and
only once, whatever goes on at the supervisor; a proxy is found whenever one is dialed; the chain
begins, unless the identity of its head is none; and a range is never asked for in spans of none. -/
theorem accepted_settings_hold {files : String → Option String} {net : NetOptions} {c : Settings}
    (h : Command.loadSettings files net = .ok c) :
    (∃ given, Command.Says files net.config given ∧ c = {
      peers := if net.peers = [] then given.peers.getD [] else net.peers
      socks5Proxy := net.socks5Proxy.or (given.socks5Proxy.getD none)
      syncFetchSpan := net.syncFetchSpan.getD (given.syncFetchSpan.getD 300)
      p2pAddress := given.p2pAddress.getD "127.0.0.1:9876"
      agent := given.agent.getD "EOS Agent"
      networkVersion := given.networkVersion.getD 1212
      chainId := given.chainId.getD none }) ∧
    (List.Forall₂ Network.Contact.IsFor c.peers (enrolled c.peers 0) ∧
      (enrolled c.peers 0).map (·.session) = List.range c.peers.length ∧
      ∀ s, Relation.ReflTransGen (Event c) {} s → s.Enrolls c) ∧
    (∀ text, c.socks5Proxy = some text → ∃ proxy, Address.ofText text = .ok proxy ∧
      ∀ target : Address, target.port ≠ Session.tlsPort →
        Session.openLink c target = (do
          let now ← Session.Action.instant
          Session.openTunnel proxy target (now + Session.dialTimeout))) ∧
    ((∃ id, c.chainIdentity = .ok id) ∧
      ∀ head fault, Command.startChain c head = .error fault ↔
        ∃ num text cause, head = some (num, text) ∧
          (Octets.ofHex text : Except Wire.Fault Checksum) = .error cause ∧
          fault = .headId cause) ∧
    1 ≤ c.syncFetchSpan.toNat := by
  obtain ⟨hc, given, hsays, hchosen⟩ := Command.of_loadSettings h
  obtain ⟨hcontacts, hsessions⟩ := Network.enrolled_of_addresses 0 hc.peers
  refine ⟨⟨given, hsays, ?_⟩, ⟨hcontacts, ?_, ?_⟩, ?_, ⟨hc.chainId, ?_⟩, hc.span⟩
  · rw [hchosen]
    simp [Command.overridden, Given.settings]
  · rw [hsessions, List.range_eq_range']
  · intro s hs
    exact Network.enrolls_of_events hs hc.peers
  · intro text htext
    obtain ⟨proxy, hproxy⟩ := hc.proxy text htext
    exact ⟨proxy, hproxy, fun target => Session.openLink_of_proxy htext hproxy⟩
  · exact Command.startChain_eq_error_iff hc

namespace Accepted

/-- A file that names one peer twice and leaves most fields to the defaults. -/
def files (path : String) : Option String :=
  if path = "net.json" then
    some "\x7b \"peers\": [\"10.0.0.1:9876\", \"[::1]:443\", \"10.0.0.1:9876\"],
      \"agent\": \"x\" \x7d"
  else none

def options : NetOptions :=
  { config := some "net.json", socks5Proxy := some "127.0.0.1:1080", syncFetchSpan := some 50 }

def settings : Settings where
  peers := ["10.0.0.1:9876", "[::1]:443", "10.0.0.1:9876"]
  socks5Proxy := some "127.0.0.1:1080"
  syncFetchSpan := 50
  agent := "x"

end Accepted

/-- Three contacts, a proxy, and a head whose identity is too short. -/
theorem sample_settings_hold :
    Command.loadSettings Accepted.files Accepted.options = .ok Accepted.settings ∧
      ({} : Site).Enrolls Accepted.settings ∧
      (∃ proxy, Address.ofText "127.0.0.1:1080" = .ok proxy) ∧
      ∃ cause,
        Command.startChain Accepted.settings (some (7, "00ff")) = .error (.headId cause) := by
  have hload : Command.loadSettings Accepted.files Accepted.options = .ok Accepted.settings := by
    decide +kernel
  obtain ⟨-, ⟨-, -, henrolls⟩, hproxy, ⟨-, hchain⟩, -⟩ := accepted_settings_hold hload
  obtain ⟨proxy, hfound, -⟩ := hproxy "127.0.0.1:1080" rfl
  refine ⟨hload, henrolls {} .refl, ⟨proxy, hfound⟩, ?_⟩
  cases hid : (Octets.ofHex "00ff" : Except Wire.Fault Checksum) with
  | error cause => exact ⟨cause, (hchain _ _).mpr ⟨7, "00ff", cause, rfl, hid, rfl⟩⟩
  | ok id =>
    have hrefused : (Octets.ofHex "00ff" : Except Wire.Fault Checksum).toOption = none := by
      decide +kernel
    rw [hid] at hrefused
    cases hrefused

end BlockSync
