import MqttEngine.Lib.Decimal
import MqttEngine.Tokio.Types

/-!
# Broker URIs and the fallback from QUIC

`ClientOptions::from_uri` reads where the broker is from a URI. `Names` is the grammar of what it
accepts: a scheme and, for a socket, a host without a colon, with a port or with the one of the
scheme. A host with a colon in it, as an IPv6 address has, cannot be named. Every target that a URI
can name is named by the URI that it is printed as.

`SmartTransport` dials a target, and if that fails or takes longer than five seconds, what it falls
back to. Only QUIC has a fallback, and that is TCP without TLS.

## Main definitions

* `TransportTarget`, `fromUri` — the targets, and the URIs that are read.
* `Names`, `TransportTarget.uri` — the grammar, and how targets are printed.
* `SmartTransport.connect` — what is dialed.

## Main results

* `fromUri_eq_ok`, `fromUri_uri` — what is accepted, and that printing and reading agree.
* `dialed_plain_iff` — when a broker is dialed without encryption.
-/

namespace MqttEngine.Tokio

/-! ## Strings -/

/-- `str::strip_prefix`. -/
def stripPrefix (front s : String) : Option String :=
  (front.toList.isPrefixOf? s.toList).map String.ofList

/-- `str::split_once`. -/
def splitOnce (c : Char) (s : String) : Option (String × String) :=
  if c ∈ s.toList then
    some (.ofList (s.toList.takeWhile (· != c)), .ofList (s.toList.dropWhile (· != c)).tail)
  else none

/-- `str::parse::<u16>`, which takes a sign. -/
def parseU16 (s : String) : Option UInt16 := do
  let n ← Decimal.parse (match s.toList with
    | '+' :: digits => digits
    | digits => digits)
  if n < 65536 then some (.ofNat n) else none

/-- The string is read as the number. -/
def Numeral (s : String) (n : UInt16) : Prop :=
  ∃ digits, (s.toList = digits ∨ s.toList = '+' :: digits) ∧ Decimal.parse digits = some n.toNat

section
variable {front rest s : String} {c : Char}

theorem stripPrefix_eq_some : stripPrefix front s = some rest ↔ s = front ++ rest := by
  rw [stripPrefix, Option.map_eq_some_iff]
  simp only [List.isPrefixOf?_eq_some_iff_append_eq]
  constructor
  · rintro ⟨tail, htail, rfl⟩
    rw [← String.toList_inj, String.toList_append, String.toList_ofList, htail]
  · rintro rfl
    exact ⟨rest.toList, by rw [String.toList_append], String.ofList_toList⟩

theorem splitOnce_of {before after : List Char} (h : s.toList = before ++ c :: after)
    (hc : c ∉ before) : splitOnce c s = some (.ofList before, .ofList after) := by
  have hpos : ∀ x ∈ before, (x != c) = true := fun x hx => by
    simpa using fun heq : x = c => hc (heq ▸ hx)
  rw [splitOnce, if_pos (by simp [h]), h, List.takeWhile_append_of_pos hpos,
    List.dropWhile_append_of_pos hpos]
  simp

theorem splitOnce_eq_some {a b : String} :
    splitOnce c s = some (a, b) ↔ c ∉ a.toList ∧ s.toList = a.toList ++ c :: b.toList := by
  constructor
  · intro h
    have hmem : c ∈ s.toList := by
      by_contra hnot
      rw [splitOnce, if_neg hnot] at h
      cases h
    obtain ⟨before, after, hs, hbefore⟩ := List.eq_append_cons_of_mem hmem
    rw [splitOnce_of hs hbefore] at h
    cases h
    simpa only [String.toList_ofList] using ⟨hbefore, hs⟩
  · rintro ⟨ha, hs⟩
    rw [splitOnce_of hs ha, String.ofList_toList, String.ofList_toList]

theorem splitOnce_eq_none : splitOnce c s = none ↔ c ∉ s.toList := by
  rw [splitOnce]
  split <;> simp_all

theorem parseU16_eq_some {n : UInt16} : parseU16 s = some n ↔ Numeral s n := by
  have hread {digits : List Char} : ((Decimal.parse digits).bind fun m =>
      if m < 65536 then some (UInt16.ofNat m) else none) = some n ↔
        Decimal.parse digits = some n.toNat := by
    rw [Option.bind_eq_some_iff]
    constructor
    · rintro ⟨m, hm, hlt⟩
      split at hlt
      · cases hlt
        rw [hm, UInt16.toNat_ofNat_of_lt' ‹_›]
      · cases hlt
    · intro h
      exact ⟨n.toNat, h, by rw [if_pos n.toNat_lt, UInt16.ofNat_toNat]⟩
  change ((Decimal.parse _).bind _) = _ ↔ _
  rw [hread]
  constructor
  · intro h
    split at h
    · rename_i digits hsign
      exact ⟨digits, .inr hsign, h⟩
    · exact ⟨_, .inl rfl, h⟩
  · rintro ⟨digits, hdigits | hdigits, h⟩
    · split
      · -- A sign is not a digit.
        rename_i rest hsign
        obtain ⟨-, hall, -⟩ := Decimal.parse_eq_some.mp h
        rw [← hdigits, hsign] at hall
        exact absurd (hall '+' (by simp)) (by decide)
      · rwa [hdigits]
    · simp only [hdigits]
      exact h

/-- A number that is printed is read back. -/
theorem numeral_toDigits (n : UInt16) : Numeral (.ofList (Nat.toDigits 10 n.toNat)) n :=
  ⟨_, .inl String.toList_ofList, Decimal.parse_toDigits n.toNat⟩

end

/-! ## Targets -/

/-- `TransportTarget`. -/
inductive TransportTarget
  | tcp (host : String) (port : UInt16)
  | tls (host : String) (port : UInt16) (serverName : String)
  | quic (host : String) (port : UInt16) (serverName : String)
  | unix (path : String)
  | namedPipe (path : String)
  deriving DecidableEq

/-- The Cargo features that `from_uri` asks for. -/
structure Features where
  tokioTls : Bool
  transportQuic : Bool

section
variable {E : Type}

/-- `parse_host_port`. -/
def parseHostPort (s : String) (defaultPort : UInt16) :
    Except (ClientError E) (String × UInt16) :=
  match splitOnce ':' s with
  | some (host, portStr) =>
    match parseU16 portStr with
    | some port => .ok (host, port)
    | none => .error (.invalidTopic ("Invalid port '" ++ portStr ++ "' in URI"))
  | none => .ok (s, defaultPort)

/-- `ClientOptions::from_uri`: the target, and the other options. -/
def fromUri (features : Features) (clientId : String) (scaledDelay : ℕ → ℕ) (uri : String) :
    Except (ClientError E) (TransportTarget × ClientOptions) :=
  let new := ClientOptions.new clientId scaledDelay
  match stripPrefix "mqtt://" uri with
  | some rest => (parseHostPort rest 1883).map fun (host, port) => (.tcp host port, new)
  | none =>
    match stripPrefix "mqtts://" uri with
    | some rest =>
      if features.tokioTls then
        (parseHostPort rest 8883).map fun (host, port) => (.tls host port host, new)
      else .error (.tls "Feature 'tokio-tls' is required for mqtts:// URIs")
    | none =>
      match stripPrefix "quic://" uri with
      | some rest =>
        if features.transportQuic then
          (parseHostPort rest 14567).map fun (host, port) => (.quic host port host, new)
        else .error (.quic "Feature 'transport-quic' is required for quic:// URIs")
      | none =>
        match stripPrefix "unix://" uri with
        | some path => .ok (.unix path, new)
        | none =>
          match stripPrefix "pipe://" uri with
          | some path => .ok (.namedPipe path, new)
          | none => .error (.invalidTopic ("Unsupported scheme in URI '" ++ uri ++
              "'. Expected 'mqtt://', 'mqtts://', 'quic://', 'unix://', or 'pipe://'"))

/-! ## The grammar -/

/-- A host, with a port or with the default one. -/
inductive Authority (defaultPort : UInt16) : String → String → UInt16 → Prop
  | host {host : String} (h : ':' ∉ host.toList) : Authority defaultPort host host defaultPort
  | hostPort {host spelled : String} {port : UInt16} (h : ':' ∉ host.toList)
      (hport : Numeral spelled port) :
      Authority defaultPort (host ++ ":" ++ spelled) host port

/-- The URI names the target. -/
inductive Names (features : Features) : String → TransportTarget → Prop
  | tcp {rest host : String} {port : UInt16} (h : Authority 1883 rest host port) :
      Names features ("mqtt://" ++ rest) (.tcp host port)
  | tls {rest host : String} {port : UInt16} (hfeature : features.tokioTls)
      (h : Authority 8883 rest host port) :
      Names features ("mqtts://" ++ rest) (.tls host port host)
  | quic {rest host : String} {port : UInt16} (hfeature : features.transportQuic)
      (h : Authority 14567 rest host port) :
      Names features ("quic://" ++ rest) (.quic host port host)
  | unix (path : String) : Names features ("unix://" ++ path) (.unix path)
  | namedPipe (path : String) : Names features ("pipe://" ++ path) (.namedPipe path)

/-- How a host and a port are printed. -/
def printAuthority (host : String) (port : UInt16) : String :=
  host ++ ":" ++ .ofList (Nat.toDigits 10 port.toNat)

/-- How a target is printed. -/
def TransportTarget.uri : TransportTarget → String
  | .tcp host port => "mqtt://" ++ printAuthority host port
  | .tls host port _ => "mqtts://" ++ printAuthority host port
  | .quic host port _ => "quic://" ++ printAuthority host port
  | .unix path => "unix://" ++ path
  | .namedPipe path => "pipe://" ++ path

variable {features : Features} {clientId : String} {scaledDelay : ℕ → ℕ} {uri : String}
  {target : TransportTarget} {options : ClientOptions}

theorem parseHostPort_eq_ok {s host : String} {defaultPort port : UInt16} :
    (parseHostPort s defaultPort : Except (ClientError E) (String × UInt16)) = .ok (host, port) ↔
      Authority defaultPort s host port := by
  have hcolon {a b : String} (h : s.toList = a.toList ++ ':' :: b.toList) : s = a ++ ":" ++ b := by
    rw [← String.toList_inj, h]
    simp [String.toList_append]
  rw [parseHostPort]
  constructor
  · intro h
    split at h
    · rename_i a portStr hsplit
      obtain ⟨ha, hs⟩ := splitOnce_eq_some.mp hsplit
      split at h
      · rename_i n hport
        cases h
        rw [hcolon hs]
        exact .hostPort ha (parseU16_eq_some.mp hport)
      · cases h
    · rename_i hsplit
      cases h
      exact .host (splitOnce_eq_none.mp hsplit)
  · intro h
    cases h with
    | host h => rw [splitOnce_eq_none.mpr h]
    | @hostPort _ spelled _ h hport =>
      have hsplit : splitOnce ':' (host ++ ":" ++ spelled) = some (host, spelled) :=
        splitOnce_eq_some.mpr ⟨h, by simp [String.toList_append]⟩
      rw [hsplit]
      simp only [parseU16_eq_some.mpr hport]

/-- What follows a scheme is read as an authority. -/
theorem map_parseHostPort_eq_ok (make : String → UInt16 → TransportTarget) {rest : String}
    {defaultPort : UInt16} {new : ClientOptions} :
    ((parseHostPort rest defaultPort : Except (ClientError E) (String × UInt16)).map
        fun (host, port) => (make host port, new)) = .ok (target, options) ↔
      (∃ host port, Authority defaultPort rest host port ∧ target = make host port) ∧
        options = new := by
  rcases hparse : (parseHostPort rest defaultPort : Except (ClientError E) (String × UInt16))
    with e | ⟨host, port⟩
  · constructor
    · intro h
      cases h
    · rintro ⟨⟨host, port, h, -⟩, -⟩
      rw [parseHostPort_eq_ok.mpr h] at hparse
      cases hparse
  · constructor
    · rintro ⟨⟩
      exact ⟨⟨host, port, parseHostPort_eq_ok.mp hparse, rfl⟩, rfl⟩
    · rintro ⟨⟨host', port', h, rfl⟩, rfl⟩
      rw [parseHostPort_eq_ok.mpr h] at hparse
      cases hparse
      rfl

/-- Only one scheme stands in front of a URI. -/
theorem stripPrefix_scheme (rest : String) :
    stripPrefix "mqtt://" ("mqtts://" ++ rest) = none ∧
    stripPrefix "mqtt://" ("quic://" ++ rest) = none ∧
    stripPrefix "mqtts://" ("quic://" ++ rest) = none ∧
    stripPrefix "mqtt://" ("unix://" ++ rest) = none ∧
    stripPrefix "mqtts://" ("unix://" ++ rest) = none ∧
    stripPrefix "quic://" ("unix://" ++ rest) = none ∧
    stripPrefix "mqtt://" ("pipe://" ++ rest) = none ∧
    stripPrefix "mqtts://" ("pipe://" ++ rest) = none ∧
    stripPrefix "quic://" ("pipe://" ++ rest) = none ∧
    stripPrefix "unix://" ("pipe://" ++ rest) = none := by
  simp only [stripPrefix, String.toList_append]
  exact ⟨rfl, rfl, rfl, rfl, rfl, rfl, rfl, rfl, rfl, rfl⟩

/-- **What `from_uri` accepts.** -/
theorem fromUri_eq_ok :
    (fromUri features clientId scaledDelay uri :
        Except (ClientError E) (TransportTarget × ClientOptions)) = .ok (target, options) ↔
      Names features uri target ∧ options = .new clientId scaledDelay := by
  constructor
  · intro h
    rw [fromUri] at h
    dsimp only at h
    split at h
    · rename_i rest hfront
      obtain ⟨⟨host, port, hauthority, rfl⟩, hoptions⟩ :=
        (map_parseHostPort_eq_ok .tcp).mp h
      exact ⟨stripPrefix_eq_some.mp hfront ▸ .tcp hauthority, hoptions⟩
    split at h
    · rename_i rest hfront
      split at h
      · rename_i hfeature
        obtain ⟨⟨host, port, hauthority, rfl⟩, hoptions⟩ :=
          (map_parseHostPort_eq_ok fun host port => .tls host port host).mp h
        exact ⟨stripPrefix_eq_some.mp hfront ▸ .tls hfeature hauthority, hoptions⟩
      · cases h
    split at h
    · rename_i rest hfront
      split at h
      · rename_i hfeature
        obtain ⟨⟨host, port, hauthority, rfl⟩, hoptions⟩ :=
          (map_parseHostPort_eq_ok fun host port => .quic host port host).mp h
        exact ⟨stripPrefix_eq_some.mp hfront ▸ .quic hfeature hauthority, hoptions⟩
      · cases h
    split at h
    · rename_i path hfront
      cases h
      exact ⟨stripPrefix_eq_some.mp hfront ▸ .unix path, rfl⟩
    split at h
    · rename_i path hfront
      cases h
      exact ⟨stripPrefix_eq_some.mp hfront ▸ .namedPipe path, rfl⟩
    · cases h
  · rintro ⟨hnames, rfl⟩
    rw [fromUri]
    cases hnames with
    | @tcp rest host port h =>
      rw [stripPrefix_eq_some.mpr rfl]
      exact (map_parseHostPort_eq_ok .tcp).mpr ⟨⟨host, port, h, rfl⟩, rfl⟩
    | @tls rest host port hfeature h =>
      obtain ⟨h₁, -⟩ := stripPrefix_scheme rest
      rw [h₁, stripPrefix_eq_some.mpr rfl]
      dsimp only
      rw [if_pos hfeature]
      exact (map_parseHostPort_eq_ok fun host port => .tls host port host).mpr
        ⟨⟨host, port, h, rfl⟩, rfl⟩
    | @quic rest host port hfeature h =>
      obtain ⟨-, h₁, h₂, -⟩ := stripPrefix_scheme rest
      rw [h₁, h₂, stripPrefix_eq_some.mpr rfl]
      dsimp only
      rw [if_pos hfeature]
      exact (map_parseHostPort_eq_ok fun host port => .quic host port host).mpr
        ⟨⟨host, port, h, rfl⟩, rfl⟩
    | unix path =>
      obtain ⟨-, -, -, h₁, h₂, h₃, -⟩ := stripPrefix_scheme path
      rw [h₁, h₂, h₃, stripPrefix_eq_some.mpr rfl]
    | namedPipe path =>
      obtain ⟨-, -, -, -, -, -, h₁, h₂, h₃, h₄⟩ := stripPrefix_scheme path
      rw [h₁, h₂, h₃, h₄, stripPrefix_eq_some.mpr rfl]

/-- A host that can be read can be printed with any port. -/
theorem authority_print {defaultPort : UInt16} {host : String} (h : ':' ∉ host.toList)
    (port : UInt16) : Authority defaultPort (printAuthority host port) host port :=
  .hostPort h (numeral_toDigits port)

theorem Authority.host_ne {defaultPort port : UInt16} {s host : String}
    (h : Authority defaultPort s host port) : ':' ∉ host.toList := by
  cases h with
  | host h => exact h
  | hostPort h => exact h

theorem names_uri (h : Names features uri target) : Names features target.uri target := by
  cases h with
  | tcp h => exact .tcp (authority_print h.host_ne _)
  | tls hfeature h => exact .tls hfeature (authority_print h.host_ne _)
  | quic hfeature h => exact .quic hfeature (authority_print h.host_ne _)
  | unix path => exact .unix path
  | namedPipe path => exact .namedPipe path

/-- **Printing and reading agree.** A target that any URI names is named by the URI that it is
printed as. -/
theorem fromUri_uri :
    (∃ uri, (fromUri features clientId scaledDelay uri :
        Except (ClientError E) (TransportTarget × ClientOptions)) = .ok (target, options)) ↔
      (fromUri features clientId scaledDelay target.uri :
        Except (ClientError E) (TransportTarget × ClientOptions)) = .ok (target, options) := by
  constructor
  · rintro ⟨uri, h⟩
    obtain ⟨hnames, hoptions⟩ := fromUri_eq_ok.mp h
    exact fromUri_eq_ok.mpr ⟨names_uri hnames, hoptions⟩
  · exact fun h => ⟨_, h⟩

/-- The first colon of an address is taken for the one in front of the port. -/
example : (parseHostPort "[::1]:1883" 1883 : Except (ClientError Unit) (String × UInt16)) =
    .error (.invalidTopic "Invalid port ':1]:1883' in URI") := by decide

end

/-! ## The fallback -/

/-- What a call of `connect_transport` returns, if it does, and whether it does so within the five
seconds that a first call is given. -/
structure Dialed (E T : Type) where
  result : Option (Except (ClientError E) T)
  inTime : Bool

namespace SmartTransport
variable {E T : Type} (connectTransport : TransportTarget → Dialed E T)

/-- `attempt_fallback`: what is dialed, and the result. -/
def attemptFallback (target : TransportTarget) (originalError : ClientError E) :
    List TransportTarget × Option (Except (ClientError E) T) :=
  match target with
  | .quic host port _ => ([.tcp host port], (connectTransport (.tcp host port)).result)
  | _ => ([], some (.error originalError))

/-- `SmartTransport::connect`: what is dialed, in order, and the result. -/
def connect (target : TransportTarget) :
    List TransportTarget × Option (Except (ClientError E) T) :=
  let primary := connectTransport target
  let (dialed, result) :=
    match primary.inTime, primary.result with
    | true, some (.ok transport) => ([], some (.ok transport))
    | true, some (.error e) => attemptFallback connectTransport target e
    | _, _ => attemptFallback connectTransport target (.connectionRefused 3)
  (target :: dialed, result)

/-- The first call fails, or it takes too long. -/
def Fails (target : TransportTarget) : Prop :=
  ∀ transport, (connectTransport target).result = some (.ok transport) →
    (connectTransport target).inTime = false

variable {connectTransport} {target : TransportTarget}

/-- A first call that succeeds is the only one. -/
theorem connect_of_not_fails (h : ¬ Fails connectTransport target) :
    ∃ transport, connect connectTransport target = ([target], some (.ok transport)) := by
  simp only [Fails, not_forall, Bool.not_eq_false] at h
  obtain ⟨transport, hresult, htime⟩ := h
  exact ⟨transport, by rw [connect, hresult, htime]⟩

/-- After a first call that fails, there is a fallback for QUIC only. -/
theorem connect_of_fails (h : Fails connectTransport target) :
    ∃ e, connect connectTransport target =
      (target :: (attemptFallback connectTransport target e).1,
        (attemptFallback connectTransport target e).2) := by
  rw [connect]
  rcases hresult : (connectTransport target).result with _ | e | transport
  · exact ⟨.connectionRefused 3, by cases (connectTransport target).inTime <;> rfl⟩
  · cases htime : (connectTransport target).inTime
    · exact ⟨.connectionRefused 3, rfl⟩
    · exact ⟨e, rfl⟩
  · exact ⟨.connectionRefused 3, by rw [h transport hresult]⟩

/-- TCP is dialed if it is the target, and after QUIC has failed. -/
theorem tcp_mem_connect :
    (∃ host port, .tcp host port ∈ (connect connectTransport target).1) ↔
      (∃ host port, target = .tcp host port) ∨
        (∃ host port serverName, target = .quic host port serverName) ∧
          Fails connectTransport target := by
  by_cases hfails : Fails connectTransport target
  · obtain ⟨e, hconnect⟩ := connect_of_fails hfails
    rw [hconnect]
    cases target <;> simp [attemptFallback, hfails]
  · obtain ⟨transport, hconnect⟩ := connect_of_not_fails hfails
    rw [hconnect]
    cases target <;> simp [hfails]

end SmartTransport

section
variable {E T : Type} {connectTransport : TransportTarget → Dialed E T} {features : Features}
  {clientId : String} {scaledDelay : ℕ → ℕ} {uri : String} {target : TransportTarget}
  {options : ClientOptions}

/-- The URI has the scheme. -/
def HasScheme (scheme uri : String) : Prop := ∃ rest, uri = scheme ++ rest

theorem not_hasScheme {scheme other rest : String} (h : stripPrefix scheme (other ++ rest) = none) :
    ¬ HasScheme scheme (other ++ rest) := by
  rintro ⟨tail, htail⟩
  rw [stripPrefix_eq_some.mpr htail] at h
  cases h

/-- The scheme tells the kind of the target. -/
theorem Names.hasScheme (h : Names features uri target) :
    (HasScheme "mqtt://" uri ↔ ∃ host port, target = .tcp host port) ∧
      (HasScheme "quic://" uri ↔ ∃ host port serverName, target = .quic host port serverName) := by
  cases h with
  | @tcp rest _ _ _ =>
    have hquic : stripPrefix "quic://" ("mqtt://" ++ rest) = none := by
      rw [stripPrefix, String.toList_append]
      rfl
    exact ⟨iff_of_true ⟨_, rfl⟩ ⟨_, _, rfl⟩, iff_of_false (not_hasScheme hquic) (by simp)⟩
  | @tls rest _ _ _ _ =>
    obtain ⟨htcp, -⟩ := stripPrefix_scheme rest
    have hquic : stripPrefix "quic://" ("mqtts://" ++ rest) = none := by
      rw [stripPrefix, String.toList_append]
      rfl
    exact ⟨iff_of_false (not_hasScheme htcp) (by simp),
      iff_of_false (not_hasScheme hquic) (by simp)⟩
  | @quic rest _ _ _ _ =>
    obtain ⟨-, htcp, -⟩ := stripPrefix_scheme rest
    exact ⟨iff_of_false (not_hasScheme htcp) (by simp), iff_of_true ⟨_, rfl⟩ ⟨_, _, _, rfl⟩⟩
  | unix path =>
    obtain ⟨-, -, -, htcp, -, hquic, -⟩ := stripPrefix_scheme path
    exact ⟨iff_of_false (not_hasScheme htcp) (by simp),
      iff_of_false (not_hasScheme hquic) (by simp)⟩
  | namedPipe path =>
    obtain ⟨-, -, -, -, -, -, htcp, -, hquic, -⟩ := stripPrefix_scheme path
    exact ⟨iff_of_false (not_hasScheme htcp) (by simp),
      iff_of_false (not_hasScheme hquic) (by simp)⟩

/-- **When a broker is dialed without encryption.** A client that is configured by a URI dials plain
TCP if that is what it is told, and after QUIC has failed; instead of TLS it never does. -/
theorem dialed_plain_iff
    (h : (fromUri features clientId scaledDelay uri :
      Except (ClientError E) (TransportTarget × ClientOptions)) = .ok (target, options)) :
    (∃ host port, .tcp host port ∈ (SmartTransport.connect connectTransport target).1) ↔
      HasScheme "mqtt://" uri ∨
        HasScheme "quic://" uri ∧ SmartTransport.Fails connectTransport target := by
  obtain ⟨hnames, -⟩ := fromUri_eq_ok.mp h
  rw [SmartTransport.tcp_mem_connect, hnames.hasScheme.1, hnames.hasScheme.2]

/-- QUIC does not get through. -/
def blocked : TransportTarget → Dialed Unit Unit
  | .quic _ _ _ => ⟨none, false⟩
  | _ => ⟨some (.ok ()), true⟩

theorem dialed_plain_iff_blocked :
    (∃ host port, .tcp host port ∈ (SmartTransport.connect blocked (.quic "b" 14567 "b")).1) ↔
      HasScheme "mqtt://" ("quic://" ++ "b") ∨
        HasScheme "quic://" ("quic://" ++ "b") ∧
          SmartTransport.Fails blocked (.quic "b" 14567 "b") := by
  have hread : (fromUri ⟨false, true⟩ "c" (fun _ => 0) ("quic://" ++ "b") :
      Except (ClientError Unit) (TransportTarget × ClientOptions)) =
        .ok (.quic "b" 14567 "b", .new "c" fun _ => 0) :=
    fromUri_eq_ok.mpr ⟨.quic rfl (.host (by decide)), rfl⟩
  exact dialed_plain_iff hread

end

end MqttEngine.Tokio
