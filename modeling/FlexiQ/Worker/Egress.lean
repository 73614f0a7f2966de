/-
# `Worker.Egress` — what a push target may dial

A push target is vetted twice: its host when the target is built
(`validate_target_url`), and the addresses of every later resolution when a
connection is opened (`PinnedResolver::resolve`, through `EgressPolicy::vet`).

What `std::net` and `url` do with text is outside the repository: `Text` holds
their parsers and their printer, with the two facts used of the one of addresses.
-/
import FlexiQ.Lib.Octets

namespace FlexiQ.Egress

open FlexiQ.Lib

/-! ## Addresses -/

inductive IpAddr where
  | v4 (octets : Vector UInt8 4)
  | v6 (octets : Vector UInt8 16)
deriving DecidableEq

def toIpv4Mapped (v6 : Vector UInt8 16) : Option (Vector UInt8 4) :=
  if v6.toList.take 12 = List.replicate 10 0 ++ [255, 255] then
    some #v[v6[12], v6[13], v6[14], v6[15]]
  else
    none

def isLoopbackV4 (a : Vector UInt8 4) : Bool := a[0] = 127

def isLoopbackV6 (a : Vector UInt8 16) : Bool := a.toList = List.replicate 15 0 ++ [1]

def isNeverRoutableV4 (a : Vector UInt8 4) : Bool :=
  isLoopbackV4 a
    -- 169.254.0.0/16, unspecified, multicast, broadcast, one metadata address
    || (a[0] = 169 && a[1] = 254) || a = #v[0, 0, 0, 0]
    || (a[0] ≥ 224 && a[0] ≤ 239) || a = #v[255, 255, 255, 255]
    || a = #v[100, 100, 100, 200]

def isNeverRoutableV6 (a : Vector UInt8 16) : Bool :=
  isLoopbackV6 a || a.toList = List.replicate 16 0 || a[0] = 255
    -- fe80::/10, then the metadata address fd00:ec2::254
    || (a[0] = 0xfe && a[1] &&& 0xc0 = 0x80)
    || a.toList = [0xfd, 0, 0x0e, 0xc2] ++ List.replicate 10 0 ++ [0x02, 0x54]

def isNeverRoutable : IpAddr → Bool
  | .v4 v4 => isNeverRoutableV4 v4
  | .v6 v6 => match toIpv4Mapped v6 with
    | some mapped => isNeverRoutableV4 mapped
    | none => isNeverRoutableV6 v6

def isLoopbackAddress : IpAddr → Bool
  | .v4 v4 => isLoopbackV4 v4
  | .v6 v6 => match toIpv4Mapped v6 with
    | some mapped => isLoopbackV4 mapped
    | none => isLoopbackV6 v6

/-! ## Host names as text -/

/-- `strip_suffix('.').unwrap_or(host)`. -/
def stripDot (host : String) : String :=
  if host.toList.getLast? = some '.' then String.ofList host.toList.dropLast else host

def toAsciiLowercase (host : String) : String := String.ofList (host.toList.map Char.toLower)

/-- The form in which the allowlist compares a host. -/
def normalize (host : String) : String := stripDot (toAsciiLowercase host)

inductive Host where
  | domain (name : String)
  | ip (address : IpAddr)

structure Url where
  scheme : String
  host : Option Host
  username : String
  password : Option String

inductive ParseError where
  | emptyHost
  | other (text : String)

/-- The parsers and the printer of `std` and `url`. The digits of an address are
read in either case, and no address ends in a dot. -/
structure Text where
  isWhitespace : Char → Bool
  parseUrl : String → Except ParseError Url
  parse : String → Option IpAddr
  display : IpAddr → String
  parse_lower : ∀ host, parse (normalize host) = parse (stripDot host)
  parse_dot : ∀ s a, parse s = some a → stripDot s = s

def Host.text (t : Text) : Host → String
  | .domain name => name
  | .ip address => t.display address

/-! ## The allowlist -/

inductive AllowRule where
  | host (name : String)
  | suffix (base : String)
  | network (base : IpAddr) (width : Nat)

def foldMapped : IpAddr → IpAddr
  | .v4 v4 => .v4 v4
  | .v6 v6 => ((toIpv4Mapped v6).map .v4).getD (.v6 v6)

/-- Whether the first `width` bits agree: whole bytes, then the rest under a mask. -/
def octetsMatch (base address : List UInt8) (width : Nat) : Bool :=
  if width > base.length * 8 then false
  else if base.take (width / 8) ≠ address.take (width / 8) then false
  else if width % 8 = 0 then true
  else
    let mask : UInt8 := 0xff <<< (8 - width % 8).toUInt8
    base.getD (width / 8) 0 &&& mask = address.getD (width / 8) 0 &&& mask

def networkContains (base : IpAddr) (width : Nat) (address : IpAddr) : Bool :=
  match foldMapped base, foldMapped address with
  | .v4 base, .v4 address => octetsMatch base.toList address.toList width
  | .v6 base, .v6 address => octetsMatch base.toList address.toList width
  | _, _ => false

theorem octetsMatch_iff {base address : List UInt8} {width : Nat}
    (hlen : base.length = address.length) :
    octetsMatch base address width = true ↔
      width ≤ base.length * 8 ∧ ∀ i < width, bit base i = bit address i := by
  by_cases hw : width ≤ base.length * 8
  swap
  · simp [octetsMatch, not_le.mp hw, hw]
  have hform : octetsMatch base address width = true ↔
      base.take (width / 8) = address.take (width / 8) ∧ (width % 8 ≠ 0 →
        base.getD (width / 8) 0 &&& (0xff : UInt8) <<< (8 - width % 8).toUInt8 =
          address.getD (width / 8) 0 &&& (0xff : UInt8) <<< (8 - width % 8).toUInt8) := by
    unfold octetsMatch
    rw [if_neg (not_lt.mpr hw)]
    split_ifs <;> simp_all
  rw [hform, take_eq_iff hlen]
  constructor
  · rintro ⟨hwhole, hrest⟩
    refine ⟨hw, fun i hi => ?_⟩
    by_cases hlt : i / 8 < width / 8
    · rw [bit, bit, hwhole _ hlt]
    · rw [bit, bit, show i / 8 = width / 8 by omega]
      exact (masked_eq_iff (by omega) (by omega)).mp (hrest (by omega)) _ (by omega)
  · rintro ⟨-, h⟩
    have hat (j i : Nat) (hi : i < 8) (hlt : 8 * j + i < width) :
        (base.getD j 0).toBitVec.getMsbD i = (address.getD j 0).toBitVec.getMsbD i := by
      have hbit := h (8 * j + i) hlt
      rwa [bit, bit, show (8 * j + i) / 8 = j by omega, show (8 * j + i) % 8 = i by omega] at hbit
    refine ⟨fun j hj => octet_eq_iff.mpr fun i hi => hat j i hi (by omega), fun hr => ?_⟩
    exact (masked_eq_iff (by omega) (by omega)).mpr fun i hi => hat _ i (by omega) (by omega)

/-- The address lies in the network: both are of one family once a mapped
address is read as IPv4, and the first `width` bits agree. -/
def InNetwork (base : IpAddr) (width : Nat) (address : IpAddr) : Prop :=
  match foldMapped base, foldMapped address with
  | .v4 base, .v4 address => width ≤ 32 ∧ ∀ i < width, bit base.toList i = bit address.toList i
  | .v6 base, .v6 address => width ≤ 128 ∧ ∀ i < width, bit base.toList i = bit address.toList i
  | _, _ => False

theorem networkContains_iff {base : IpAddr} {width : Nat} {address : IpAddr} :
    networkContains base width address = true ↔ InNetwork base width address := by
  unfold networkContains InNetwork
  split
  · rw [octetsMatch_iff (by simp)]
    simp
  · rw [octetsMatch_iff (by simp)]
    simp
  · simp

/-- Whether a name rule names a host in its lowered, dotless form. -/
def AllowRule.names (normalized : String) : AllowRule → Bool
  | .host h => normalized = h
  | .suffix base => normalized = base || ("." ++ base).toList.isSuffixOf normalized.toList
  | .network .. => false

def AllowRule.contains (address : IpAddr) : AllowRule → Bool
  | .network base width => networkContains base width address
  | _ => false

structure Allowlist where
  rules : List AllowRule

def Allowlist.permitsAddress (l : Allowlist) (address : IpAddr) : Bool :=
  l.rules.any (·.contains address)

/-- Some network rule holds the address. -/
def Allowlist.Covers (l : Allowlist) (address : IpAddr) : Prop :=
  ∃ base width, AllowRule.network base width ∈ l.rules ∧ InNetwork base width address

theorem Allowlist.permitsAddress_iff {l : Allowlist} {address : IpAddr} :
    l.permitsAddress address = true ↔ l.Covers address := by
  rw [permitsAddress, List.any_eq_true]
  constructor
  · rintro ⟨rule, hrule, hcontains⟩
    cases rule with
    | network base width => exact ⟨base, width, hrule, networkContains_iff.mp hcontains⟩
    | host | suffix => cases hcontains
  · rintro ⟨base, width, hrule, hin⟩
    exact ⟨_, hrule, networkContains_iff.mpr hin⟩

def Allowlist.permitsHost (t : Text) (l : Allowlist) (host : String) : Bool :=
  match t.parse (normalize host) with
  | some address => l.permitsAddress address
  | none => l.rules.any (·.names (normalize host))

/-! ## The policy -/

structure Policy where
  allow : Allowlist
  allowLoopback : Bool

inductive Refusal where
  | neverRoutable (host : String) (address : IpAddr)
  | notAllowed (host : String) (address : IpAddr)
  | resolve (host reason : String)

structure SocketAddr where
  ip : IpAddr
  port : UInt16

namespace Policy

def refusedUnconditionally (p : Policy) (address : IpAddr) : Bool :=
  isNeverRoutable address && !(p.allowLoopback && isLoopbackAddress address)

def permitsAddress (p : Policy) (address : IpAddr) : Bool :=
  if p.refusedUnconditionally address then false else p.allow.permitsAddress address

def permitsHost (t : Text) (p : Policy) (host : String) : Bool :=
  match t.parse (stripDot host) with
  | some address => p.permitsAddress address
  | none => p.allow.permitsHost t host

def hostIsNamed (t : Text) (p : Policy) (host : String) : Bool :=
  if (t.parse (stripDot host)).isSome then false else p.allow.permitsHost t host

def refusalFor (p : Policy) (host : String) (named : Bool) (address : IpAddr) : Option Refusal :=
  if !p.refusedUnconditionally address && (named || p.allow.permitsAddress address) then none
  else some (if p.refusedUnconditionally address then .neverRoutable host address
    else .notAllowed host address)

/-- Every address of a resolution, or none. -/
def vet (t : Text) (p : Policy) (host : String) (resolved : List SocketAddr) :
    Except Refusal (List SocketAddr) :=
  if resolved.isEmpty then .error (.resolve host "no addresses")
  else match resolved.findSome? fun s => p.refusalFor host (p.hostIsNamed t host) s.ip with
    | some refusal => .error refusal
    | none => .ok resolved

end Policy

inductive TargetError where
  | missingUrl
  | url (text : String)
  | scheme (other : String)
  | noHost
  | userinfo
  | hostRefused (host : String)
  | insecureTransport (host : String)

def cleartextPermitted (t : Text) (host : String) (p : Policy) : Bool :=
  if !p.allowLoopback then false
  else match t.parse (stripDot host) with
    | some address => isLoopbackAddress address
    | none => toAsciiLowercase (stripDot host) = "localhost"

def validateTargetUrl (t : Text) (url : String) (p : Policy) : Except TargetError Url :=
  if url.toList.all t.isWhitespace then .error .missingUrl
  else match t.parseUrl url with
    | .error .emptyHost => .error .noHost
    | .error (.other text) => .error (.url text)
    | .ok parsed =>
      if parsed.scheme ≠ "http" ∧ parsed.scheme ≠ "https" then .error (.scheme parsed.scheme)
      else match parsed.host with
        | none => .error .noHost
        | some host =>
          if parsed.username ≠ "" ∨ parsed.password.isSome then .error .userinfo
          else if !p.permitsHost t (host.text t) then .error (.hostRefused (host.text t))
          else if parsed.scheme = "http" ∧ !cleartextPermitted t (host.text t) p then
            .error (.insecureTransport (host.text t))
          else .ok parsed

/-- `PinnedResolver::resolve`, from the answer of the system's lookup. -/
def resolve (t : Text) (p : Policy) (host : String) (answer : Except String (List SocketAddr)) :
    Except Refusal (List SocketAddr) :=
  match answer with
  | .error reason => .error (.resolve host reason)
  | .ok resolved => p.vet t host resolved

/-- What the client connects to, for one answer: the address itself where the
host is one, and else what the resolver returned. -/
def dialled (t : Text) (p : Policy) (host : Host) (answer : Except String (List SocketAddr)) :
    List IpAddr :=
  match host with
  | .ip address => [address]
  | .domain name => match t.parse name with
    | some address => [address]
    | none => match resolve t p name answer with
      | .ok addrs => addrs.map SocketAddr.ip
      | .error _ => []

/-! ## What an address that is dialled has passed -/

section
variable {t : Text} {p : Policy} {host : String}

/-- An address may be dialled for `host`: it is not one of those nobody may
grant, and a network rule holds it or a name rule names what it was resolved from. -/
structure Permitted (t : Text) (p : Policy) (host : String) (a : IpAddr) : Prop where
  routable : isNeverRoutable a = true → p.allowLoopback = true ∧ isLoopbackAddress a = true
  granted : p.allow.Covers a ∨
    t.parse host = none ∧ ∃ rule ∈ p.allow.rules, rule.names (normalize host) = true

theorem refused_eq_false {a : IpAddr} : p.refusedUnconditionally a = false ↔
    (isNeverRoutable a = true → p.allowLoopback = true ∧ isLoopbackAddress a = true) := by
  cases hn : isNeverRoutable a <;> simp [Policy.refusedUnconditionally, hn]

theorem permitsAddress_permitted {a : IpAddr} (h : p.permitsAddress a = true) :
    Permitted t p host a := by
  unfold Policy.permitsAddress at h
  split at h
  · cases h
  · next hr => exact ⟨refused_eq_false.mp (by simpa using hr),
      .inl (Allowlist.permitsAddress_iff.mp h)⟩

/-- A name rule names the host, which is no address. -/
def NamedBy (t : Text) (p : Policy) (host : String) : Prop :=
  t.parse (stripDot host) = none ∧ ∃ rule ∈ p.allow.rules, rule.names (normalize host) = true

theorem hostIsNamed_iff : p.hostIsNamed t host = true ↔ NamedBy t p host := by
  unfold Policy.hostIsNamed NamedBy
  cases hp : t.parse (stripDot host) with
  | some address => simp
  | none =>
    -- the lowered form of a host that is no address is none either
    simp [Allowlist.permitsHost, t.parse_lower, hp]

theorem refusalFor_eq_none (host : String) {named : Bool} {a : IpAddr} :
    p.refusalFor host named a = none ↔
    p.refusedUnconditionally a = false ∧ (named = true ∨ p.allow.permitsAddress a = true) := by
  unfold Policy.refusalFor
  split <;> simp_all

theorem vet_ok {resolved addrs : List SocketAddr} : p.vet t host resolved = .ok addrs ↔
    addrs = resolved ∧ resolved ≠ [] ∧ ∀ s ∈ resolved, p.refusedUnconditionally s.ip = false ∧
      (NamedBy t p host ∨ p.allow.Covers s.ip) := by
  simp only [← hostIsNamed_iff, ← Allowlist.permitsAddress_iff, ← refusalFor_eq_none host]
  unfold Policy.vet
  split
  · next hempty => simp [List.isEmpty_iff.mp hempty]
  · next hne =>
    rw [List.isEmpty_iff] at hne
    split
    · next refusal hsome =>
      obtain ⟨s, hs, hrefused⟩ := List.exists_of_findSome?_eq_some hsome
      refine iff_of_false (by simp) fun hall => ?_
      rw [hall.2.2 s hs] at hrefused
      cases hrefused
    · next hnone =>
      have hall := List.findSome?_eq_none_iff.mp hnone
      simp only [Except.ok.injEq, hne, ne_eq, not_false_eq_true, true_and]
      exact ⟨fun h => ⟨h.symm, hall⟩, fun h => h.1.symm⟩

theorem parse_host_none (h : t.parse (stripDot host) = none) : t.parse host = none := by
  cases hp : t.parse host with
  | none => rfl
  | some a =>
    rw [t.parse_dot _ _ hp, hp] at h
    cases h

theorem resolve_permitted {answer : Except String (List SocketAddr)} {addrs : List SocketAddr}
    (h : resolve t p host answer = .ok addrs) :
    answer = .ok addrs ∧ ∀ s ∈ addrs, Permitted t p host s.ip := by
  cases answer with
  | error reason => cases h
  | ok resolved =>
    obtain ⟨rfl, -, hall⟩ := vet_ok.mp h
    refine ⟨rfl, fun s hs => ?_⟩
    obtain ⟨hr, ⟨hnone, hrule⟩ | hin⟩ := hall s hs
    · exact ⟨refused_eq_false.mp hr, .inr ⟨parse_host_none hnone, hrule⟩⟩
    · exact ⟨refused_eq_false.mp hr, .inl hin⟩

theorem validateTargetUrl_ok {target : String} {url : Url}
    (h : validateTargetUrl t target p = .ok url) :
    ∃ host, url.host = some host ∧ p.permitsHost t (host.text t) = true ∧
      (url.scheme = "http" → cleartextPermitted t (host.text t) p = true) := by
  unfold validateTargetUrl at h
  repeat' split at h
  any_goals (cases h; done)
  next host hsome _ hpermit hclear =>
    obtain rfl := Except.ok.inj h
    refine ⟨host, hsome, by simpa using hpermit, fun hhttp => ?_⟩
    simpa [hhttp] using hclear

theorem dialled_permitted {host : Host} (hhost : p.permitsHost t (host.text t) = true)
    (htext : ∀ a, host = .ip a → t.parse (t.display a) = some a)
    (answer : Except String (List SocketAddr)) {a : IpAddr} (ha : a ∈ dialled t p host answer) :
    Permitted t p (host.text t) a := by
  have hlit (b : IpAddr) (hb : t.parse (host.text t) = some b) : Permitted t p (host.text t) b := by
    rw [Policy.permitsHost, t.parse_dot _ _ hb, hb] at hhost
    exact permitsAddress_permitted hhost
  cases host with
  | ip b =>
    obtain rfl := List.mem_singleton.mp ha
    exact hlit a (htext a rfl)
  | domain name =>
    simp only [dialled] at ha
    split at ha
    · next b hb => exact List.mem_singleton.mp ha ▸ hlit b hb
    · split at ha
      · next addrs hres =>
        obtain ⟨s, hs, rfl⟩ := List.mem_map.mp ha
        exact (resolve_permitted hres).2 s hs
      · cases ha

theorem cleartext_loopback (h : cleartextPermitted t host p = true) : p.allowLoopback = true ∧
    ((∃ a, t.parse (stripDot host) = some a ∧ isLoopbackAddress a = true) ∨
      toAsciiLowercase (stripDot host) = "localhost") := by
  unfold cleartextPermitted at h
  split at h
  · cases h
  · next hloop =>
    refine ⟨by simpa using hloop, ?_⟩
    split at h
    · next a ha => exact .inl ⟨a, ha, h⟩
    · exact .inr (by simpa using h)

/-- **Every address a push target dials is permitted**, for any answers of the
resolver from one call to the next. -/
theorem target_dials_permitted {target : String} {url : Url}
    (hvalid : validateTargetUrl t target p = .ok url)
    (htext : ∀ a, url.host = some (.ip a) → t.parse (t.display a) = some a) :
    ∃ host, url.host = some host ∧
      (∀ answers : List (Except String (List SocketAddr)),
        ∀ a ∈ answers.flatMap (dialled t p host), Permitted t p (host.text t) a) ∧
      (∀ (name : String) (resolved : List SocketAddr), host = .domain name →
        t.parse name = none → (∃ s ∈ resolved, ¬ Permitted t p name s.ip) →
        dialled t p host (.ok resolved) = []) ∧
      (url.scheme = "http" → p.allowLoopback = true ∧
        ((∃ a, t.parse (stripDot (host.text t)) = some a ∧ isLoopbackAddress a = true) ∨
          toAsciiLowercase (stripDot (host.text t)) = "localhost")) := by
  obtain ⟨host, hhost, hpermit, hclear⟩ := validateTargetUrl_ok hvalid
  refine ⟨host, hhost, fun answers a ha => ?_, ?_, fun hhttp => cleartext_loopback (hclear hhttp)⟩
  · obtain ⟨answer, -, ha⟩ := List.mem_flatMap.mp ha
    exact dialled_permitted hpermit (fun b hb => htext b (hb ▸ hhost)) answer ha
  · rintro name resolved rfl hname ⟨s, hs, hnot⟩
    simp only [dialled, hname]
    split
    · next addrs hres =>
      obtain ⟨hok, hall⟩ := resolve_permitted hres
      cases hok
      exact absurd (hall s hs) hnot
    · rfl

/-- A name buys an address that no network holds: the host is named, nothing
stops the resolution outright, and one address is outside. -/
structure Outruns (t : Text) (p : Policy) (host : String) (resolved : List SocketAddr) : Prop where
  named : NamedBy t p host
  routable : ∀ s ∈ resolved, p.refusedUnconditionally s.ip = false
  outside : ∃ s ∈ resolved, ¬ p.allow.Covers s.ip

/-- **When a resolution that passes stays inside the networks**: unless a name
outruns them.  A name rule is never narrowed by the networks beside it. -/
theorem resolution_in_networks {resolved : List SocketAddr} :
    ((∃ addrs, p.vet t host resolved = .ok addrs) → ∀ s ∈ resolved, p.allow.Covers s.ip) ↔
      ¬ Outruns t p host resolved := by
  constructor
  · rintro hin ⟨hnamed, hroutable, s, hs, houtside⟩
    have hvet : p.vet t host resolved = .ok resolved :=
      vet_ok.mpr ⟨rfl, List.ne_nil_of_mem hs, fun s hs => ⟨hroutable s hs, .inl hnamed⟩⟩
    exact houtside (hin ⟨resolved, hvet⟩ s hs)
  · rintro hnot ⟨addrs, hvet⟩ s hs
    obtain ⟨-, -, hall⟩ := vet_ok.mp hvet
    rcases (hall s hs).2 with hnamed | hin
    · by_contra houtside
      exact hnot ⟨hnamed, fun s hs => (hall s hs).1, s, hs, houtside⟩
    · exact hin

end

def small : Text where
  isWhitespace := Char.isWhitespace
  parseUrl _ := .ok ⟨"https", some (.domain "api.example.com"), "", none⟩
  parse _ := none
  display _ := ""
  parse_lower _ := rfl
  parse_dot _ _ h := by cases h

def named : AllowRule := .host "api.example.com"

def pods : AllowRule := .network (.v4 #v[10, 0, 0, 0]) 8

theorem named_target_stops_metadata :
    dialled small ⟨⟨[named]⟩, false⟩ (.domain "api.example.com")
      (.ok [⟨.v4 #v[93, 184, 216, 34], 443⟩, ⟨.v4 #v[169, 254, 169, 254], 443⟩]) = [] := by
  obtain ⟨host, hhost, -, hone, -⟩ := @target_dials_permitted small ⟨⟨[named]⟩, false⟩
    "https://api.example.com" _ rfl (fun a h => by cases h)
  cases hhost
  exact hone _ _ rfl rfl ⟨_, .tail _ (.head _), fun h => absurd (h.routable rfl).1 (by decide)⟩

theorem name_outruns_network : ∃ s : SocketAddr,
    (Policy.mk ⟨[named, pods]⟩ false).vet small "api.example.com" [s] = .ok [s] ∧
      ¬ (Allowlist.mk [named, pods]).Covers s.ip :=
  ⟨⟨.v4 #v[93, 184, 216, 34], 443⟩, rfl, mt Allowlist.permitsAddress_iff.mpr (by decide)⟩

end FlexiQ.Egress
