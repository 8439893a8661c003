import Autobase.ConsoleRequestLog
import Autobase.ConsoleHandleCluster

/-! # The Patroni client

A question goes to the HTTPS endpoint of a server first and to its HTTP endpoint after that. Both
answers are decoded into one value. The decoder fills the value as far as the types fit, and the
second answer is decoded whatever its status. -/
namespace PatroniClient

open JsonText ConsoleSchema
open ConsoleLogEntity (foldName fitsInterface)
open ConsoleRequestLog (interfaceValue nesting maxNestingDepth)
open ConsoleHandleCluster (Watch Member handleCluster handleClusterServers poll)

/-! ## Filling a value -/

section Fill

variable {σ α : Type}

/-- A decoder goes on behind a value of the wrong type and reports it at the end. -/
def fillAll (fill : σ → α → σ × Bool) : σ → List α → σ × Bool
  | s, [] => (s, true)
  | s, a :: as =>
    let r := fill s a
    let rest := fillAll fill r.1 as
    (rest.1, r.2 && rest.2)

/-- Whether everything fits does not depend on the value that is filled. -/
theorem fillAll_steady {fill : σ → α → σ × Bool} (h : ∀ s t a, (fill s a).2 = (fill t a).2)
    (s t : σ) (as : List α) : (fillAll fill s as).2 = (fillAll fill t as).2 := by
  induction as generalizing s t with
  | nil => rfl
  | cons a as ih => simp only [fillAll, h s t a, ih (fill s a).1 (fill t a).1]

end Fill

/-! ## The cluster information -/

structure MemberInfo where
  name : String
  role : String
  state : String
  host : String
  timeline : ℤ
  lag : Option Json
  tags : Option Json
  pendingRestart : Bool

def MemberInfo.zero : MemberInfo := ⟨"", "", "", "", 0, none, none, false⟩

/-- A slice of members; `stale` stands in its memory behind its end, where a longer slice finds
it again. -/
structure ClusterInfo where
  members : List MemberInfo
  stale : List MemberInfo

def ClusterInfo.zero : ClusterInfo := ⟨[], []⟩

inductive Field where
  | name | role | state | host | timeline | lag | tags | pendingRestart
  deriving DecidableEq

def Field.tag : Field → String
  | .name => "name"
  | .role => "role"
  | .state => "state"
  | .host => "host"
  | .timeline => "timeline"
  | .lag => "lag"
  | .tags => "tags"
  | .pendingRestart => "pending_restart"

def fieldOf (key : String) : Option Field :=
  [Field.name, .role, .state, .host, .timeline, .lag, .tags, .pendingRestart].find? fun f =>
    decide (foldName key = foldName f.tag)

/-- 2 to the power of 63. -/
def int64Limit : ℤ := 9223372036854775808

/-- A number written without fraction and exponent, within the range. -/
def parseInt64 (x : Number) : Option ℤ :=
  let n : ℤ := if x.negative then -(digitsValue x.whole.digitList : ℤ)
    else digitsValue x.whole.digitList
  if x.fraction = none ∧ x.exponent = none ∧ -int64Limit ≤ n ∧ n < int64Limit then some n else none

def fillString (s : String) : Json → String × Bool
  | .str t => (t, true)
  | .null => (s, true)
  | _ => (s, false)

def fillInt64 (n : ℤ) : Json → ℤ × Bool
  | .num x => match parseInt64 x with
    | some k => (k, true)
    | none => (n, false)
  | .null => (n, true)
  | _ => (n, false)

def fillBool (b : Bool) : Json → Bool × Bool
  | .bool c => (c, true)
  | .null => (b, true)
  | _ => (b, false)

/-- A number without a double is not stored; inside of an array or an object it becomes nil. -/
def fillInterface (double : Number → Number) (i : Option Json) : Json → Option Json × Bool
  | .null => (none, true)
  | .num x => if x.fitsFloat64 then (some (.num (double x)), true) else (i, false)
  | v => (some (interfaceValue double v), fitsInterface v)

section Decoder

variable (double : Number → Number)

def fillField (m : MemberInfo) (v : Json) : Field → MemberInfo × Bool
  | .name => ({ m with name := (fillString m.name v).1 }, (fillString m.name v).2)
  | .role => ({ m with role := (fillString m.role v).1 }, (fillString m.role v).2)
  | .state => ({ m with state := (fillString m.state v).1 }, (fillString m.state v).2)
  | .host => ({ m with host := (fillString m.host v).1 }, (fillString m.host v).2)
  | .timeline => ({ m with timeline := (fillInt64 m.timeline v).1 }, (fillInt64 m.timeline v).2)
  | .lag => ({ m with lag := (fillInterface double m.lag v).1 }, (fillInterface double m.lag v).2)
  | .tags =>
    ({ m with tags := (fillInterface double m.tags v).1 }, (fillInterface double m.tags v).2)
  | .pendingRestart =>
    ({ m with pendingRestart := (fillBool m.pendingRestart v).1 }, (fillBool m.pendingRestart v).2)

/-- Unknown keys are skipped. -/
def fillKey (m : MemberInfo) (kv : String × Json) : MemberInfo × Bool :=
  match fieldOf kv.1 with
  | none => (m, true)
  | some f => fillField double m kv.2 f

def fillMember (m : MemberInfo) : Json → MemberInfo × Bool
  | .obj kvs => fillAll (fillKey double) m kvs
  | .null => (m, true)
  | _ => (m, false)

/-- The elements go into the memory of the slice; what they do not reach stays there. -/
def fillElements : List MemberInfo → List Json → ClusterInfo × Bool
  | cells, [] => (⟨[], cells⟩, true)
  | cells, v :: vs =>
    let r := fillMember double (cells.headD .zero) v
    let rest := fillElements cells.tail vs
    (⟨r.1 :: rest.1.members, rest.1.stale⟩, r.2 && rest.2)

/-- A null and an empty array take new memory. -/
def fillMembers (c : ClusterInfo) : Json → ClusterInfo × Bool
  | .arr [] => (.zero, true)
  | .arr vs => fillElements double (c.members ++ c.stale) vs
  | .null => (.zero, true)
  | _ => (c, false)

def fillClusterKey (c : ClusterInfo) (kv : String × Json) : ClusterInfo × Bool :=
  if foldName kv.1 = foldName "members" then fillMembers double c kv.2 else (c, true)

def fillCluster (c : ClusterInfo) : Json → ClusterInfo × Bool
  | .obj kvs => fillAll (fillClusterKey double) c kvs
  | .null => (c, true)
  | _ => (c, false)

/-- A body that is no JSON text, or one nested too deeply, leaves the value as it is. -/
def unmarshal (body : List UInt8) (c : ClusterInfo) : ClusterInfo × Bool :=
  match parse (Utf8Text.readText body) with
  | none => (c, false)
  | some v => if nesting v ≤ maxNestingDepth then fillCluster double c v else (c, false)

end Decoder

/-! ## The question -/

/-- What becomes of a request: it cannot be built, it is not answered, the body of the answer
cannot be read, or it is read. -/
inductive Reply where
  | unbuilt (err : String)
  | failed (err : String)
  | unread (status : ℕ) (err : String)
  | read (status : ℕ) (body : List UInt8)

/-- The error of the HTTPS request if there is one, and else that of the HTTP request. -/
inductive GetError where
  | afterHTTPS (httpsErr : String)
  | http (err : String)
  | body (err : String)
  | unmarshal

def isSuccess (status : ℕ) : Bool := decide (200 ≤ status ∧ status < 300)

section Question

variable {σ : Type} (unmarshal : List UInt8 → σ → σ × Bool)

/-- The value after the HTTPS request, whether it is the answer, and the error of the request. -/
def tryHTTPS (out : σ) : Reply → σ × Bool × Option String
  | .unbuilt err => (out, false, some err)
  | .failed err => (out, false, some err)
  | .unread _ _ => (out, false, none)
  | .read status body =>
    if isSuccess status then ((unmarshal body out).1, (unmarshal body out).2, none)
    else (out, false, none)

def fallbackError (httpsErr : Option String) (err : String) : GetError :=
  match httpsErr with
  | some e => .afterHTTPS e
  | none => .http err

def getJSON (https http : Reply) (out : σ) : σ × Option GetError :=
  match tryHTTPS unmarshal out https with
  | (out, true, _) => (out, none)
  | (out, false, httpsErr) =>
    match http with
    | .unbuilt err => (out, some (fallbackError httpsErr err))
    | .failed err => (out, some (fallbackError httpsErr err))
    | .unread _ err => (out, some (.body err))
    | .read _ body =>
      ((unmarshal body out).1, if (unmarshal body out).2 then none else some .unmarshal)

end Question

section Client

variable (double : Number → Number)

def getClusterInfo (https http : Reply) : Except GetError ClusterInfo :=
  match getJSON (unmarshal double) https http .zero with
  | (clusterInfo, none) => .ok clusterInfo
  | (_, some err) => .error err

/-- The members were decoded in full from the body of a response of success. -/
def DecodedFrom (members : List MemberInfo) (r : Reply) : Prop :=
  ∃ status body, r = .read status body ∧ isSuccess status = true ∧
    (unmarshal double body .zero).2 = true ∧ (unmarshal double body .zero).1.members = members

end Client

/-! ## What decodes does so into every value -/

theorem fillString_steady (s t : String) (v : Json) : (fillString s v).2 = (fillString t v).2 := by
  cases v <;> rfl

theorem fillInt64_steady (m n : ℤ) (v : Json) : (fillInt64 m v).2 = (fillInt64 n v).2 := by
  cases v with
  | num x =>
    simp only [fillInt64]
    cases parseInt64 x <;> rfl
  | _ => rfl

theorem fillBool_steady (b c : Bool) (v : Json) : (fillBool b v).2 = (fillBool c v).2 := by
  cases v <;> rfl

section Steady

variable {double : Number → Number}

theorem fillInterface_steady (i j : Option Json) (v : Json) :
    (fillInterface double i v).2 = (fillInterface double j v).2 := by
  cases v with
  | num x =>
    simp only [fillInterface]
    split <;> rfl
  | _ => rfl

theorem fillField_steady (m n : MemberInfo) (v : Json) (f : Field) :
    (fillField double m v f).2 = (fillField double n v f).2 := by
  cases f with
  | name => exact fillString_steady m.name n.name v
  | role => exact fillString_steady m.role n.role v
  | state => exact fillString_steady m.state n.state v
  | host => exact fillString_steady m.host n.host v
  | timeline => exact fillInt64_steady m.timeline n.timeline v
  | lag => exact fillInterface_steady m.lag n.lag v
  | tags => exact fillInterface_steady m.tags n.tags v
  | pendingRestart => exact fillBool_steady m.pendingRestart n.pendingRestart v

theorem fillMember_steady (m n : MemberInfo) (v : Json) :
    (fillMember double m v).2 = (fillMember double n v).2 := by
  cases v with
  | obj kvs =>
    refine fillAll_steady (fun m n kv => ?_) m n kvs
    rw [fillKey, fillKey]
    cases fieldOf kv.1 with
    | none => rfl
    | some f => exact fillField_steady m n kv.2 f
  | _ => rfl

theorem fillElements_steady (cells cells' : List MemberInfo) (vs : List Json) :
    (fillElements double cells vs).2 = (fillElements double cells' vs).2 := by
  induction vs generalizing cells cells' with
  | nil => rfl
  | cons v vs ih =>
    simp only [fillElements, ih cells.tail cells'.tail,
      fillMember_steady (cells.headD .zero) (cells'.headD .zero) v]

theorem fillMembers_steady (c c' : ClusterInfo) (v : Json) :
    (fillMembers double c v).2 = (fillMembers double c' v).2 := by
  cases v with
  | arr vs =>
    cases vs with
    | nil => rfl
    | cons v vs => exact fillElements_steady _ _ _
  | _ => rfl

theorem unmarshal_steady (body : List UInt8) (c c' : ClusterInfo) :
    (unmarshal double body c).2 = (unmarshal double body c').2 := by
  rw [unmarshal, unmarshal]
  cases parse (Utf8Text.readText body) with
  | none => rfl
  | some v =>
    simp only
    split
    · cases v with
      | obj kvs =>
        refine fillAll_steady (fun c c' kv => ?_) c c' kvs
        rw [fillClusterKey, fillClusterKey]
        split
        · exact fillMembers_steady c c' kv.2
        · rfl
      | _ => rfl
    · rfl

end Steady

/-! ## Which answers are trusted -/

section Trust

variable {double : Number → Number} {https http : Reply}

def decodes (double : Number → Number) (body : List UInt8) : Bool := (unmarshal double body .zero).2

/-- The HTTPS response is one of success and its body decodes. -/
def answersHTTPS (double : Number → Number) : Reply → Bool
  | .read status body => isSuccess status && decodes double body
  | _ => false

/-- What a request over HTTPS leaves for the one over HTTP to fill. -/
def leftBy (double : Number → Number) (https : Reply) : ClusterInfo :=
  (tryHTTPS (unmarshal double) .zero https).1

/-- Where the HTTP body is decoded, the response is one of success, and what a body over HTTPS
that did not decode has left behind does not show. -/
def SoundFallback (double : Number → Number) (https http : Reply) : Prop :=
  answersHTTPS double https = false → ∀ status body, http = .read status body →
    decodes double body = true →
      isSuccess status = true ∧
        (unmarshal double body (leftBy double https)).1.members =
          (unmarshal double body .zero).1.members

theorem tryHTTPS_answer (https : Reply) :
    (tryHTTPS (unmarshal double) .zero https).2.1 = answersHTTPS double https := by
  cases https with
  | read status body =>
    rw [tryHTTPS, answersHTTPS]
    cases isSuccess status with
    | true => rfl
    | false => rfl
  | _ => rfl

theorem getClusterInfo_https (h : answersHTTPS double https = true) :
    getClusterInfo double https http = .ok (leftBy double https) := by
  rw [← tryHTTPS_answer] at h
  rw [getClusterInfo, getJSON, leftBy]
  revert h
  rcases tryHTTPS (unmarshal double) .zero https with ⟨out, answered, err⟩
  rintro rfl
  rfl

/-- Without an answer over HTTPS the HTTP body decides, whatever its status. -/
theorem getClusterInfo_http (h : answersHTTPS double https = false) {v : ClusterInfo} :
    getClusterInfo double https http = .ok v ↔
      ∃ status body, http = .read status body ∧ decodes double body = true ∧
        (unmarshal double body (leftBy double https)).1 = v := by
  rw [← tryHTTPS_answer] at h
  rw [getClusterInfo, getJSON, leftBy]
  revert h
  rcases tryHTTPS (unmarshal double) .zero https with ⟨out, answered, err⟩
  rintro rfl
  cases http with
  | read status body =>
    have hsteady : decodes double body = (unmarshal double body out).2 :=
      unmarshal_steady body .zero out
    cases hok : (unmarshal double body out).2 with
    | true => simp [hok, hsteady]
    | false => simp [hok, hsteady]
  | _ => simp

theorem decodedFrom_read {members : List MemberInfo} {status : ℕ} {body : List UInt8} :
    DecodedFrom double members (.read status body) ↔
      isSuccess status = true ∧ decodes double body = true ∧
        (unmarshal double body .zero).1.members = members := by
  constructor
  · rintro ⟨status', body', heq, h⟩
    cases heq
    exact h
  · intro h
    exact ⟨status, body, rfl, h⟩

theorem answersHTTPS_of_decodedFrom {members : List MemberInfo}
    (h : DecodedFrom double members https) : answersHTTPS double https = true := by
  obtain ⟨status, body, rfl, hstatus, hdecodes, -⟩ := h
  exact Bool.and_eq_true_iff.mpr ⟨hstatus, hdecodes⟩

theorem decodedFrom_https (h : answersHTTPS double https = true) :
    DecodedFrom double (leftBy double https).members https := by
  cases https with
  | read status body =>
    obtain ⟨hstatus, hdecodes⟩ := Bool.and_eq_true_iff.mp h
    refine decodedFrom_read.mpr ⟨hstatus, hdecodes, ?_⟩
    rw [leftBy, tryHTTPS, hstatus]
    rfl
  | _ => cases h

theorem trusted_iff : (∀ v, getClusterInfo double https http = .ok v →
      DecodedFrom double v.members https ∨ DecodedFrom double v.members http) ↔
    SoundFallback double https http := by
  constructor
  · intro h hhttps status body hhttp hdecodes
    subst hhttp
    rcases h _ ((getClusterInfo_http hhttps).mpr ⟨status, body, rfl, hdecodes, rfl⟩) with h | h
    · rw [answersHTTPS_of_decodedFrom h] at hhttps
      cases hhttps
    · obtain ⟨hstatus, -, hmembers⟩ := decodedFrom_read.mp h
      exact ⟨hstatus, hmembers.symm⟩
  · intro h v hv
    cases hhttps : answersHTTPS double https with
    | true =>
      rw [getClusterInfo_https hhttps] at hv
      cases hv
      exact .inl (decodedFrom_https hhttps)
    | false =>
      obtain ⟨status, body, rfl, hdecodes, rfl⟩ := (getClusterInfo_http hhttps).mp hv
      obtain ⟨hstatus, hmembers⟩ := h hhttps status body rfl hdecodes
      exact .inr (decodedFrom_read.mpr ⟨hstatus, hdecodes, hmembers.symm⟩)

/-- Only a response of success with a JSON text leaves something behind. -/
theorem leftBy_eq_zero (h : ∀ status body, https = .read status body → isSuccess status = true →
    parse (Utf8Text.readText body) = none) : leftBy double https = .zero := by
  cases https with
  | read status body =>
    rw [leftBy, tryHTTPS]
    split
    · next hstatus => rw [unmarshal, h status body rfl hstatus]
    · rfl
  | _ => rfl

/-- After such a request the fallback is sound exactly where it decodes no error response. -/
theorem soundFallback_iff (h : leftBy double https = .zero) :
    SoundFallback double https http ↔ (answersHTTPS double https = false →
      ∀ status body, http = .read status body → decodes double body = true →
        isSuccess status = true) := by
  rw [SoundFallback, h]
  simp only [and_true]

/-! ## What the watcher makes of the answers -/

/-- The answer of an endpoint: the members of a response of success that decodes. -/
def answerOf (double : Number → Number) : Reply → Option (List MemberInfo)
  | .read status body =>
    if isSuccess status && decodes double body then some (unmarshal double body .zero).1.members
    else none
  | _ => none

def heard (double : Number → Number) (https http : Reply) : Option (List MemberInfo) :=
  match getClusterInfo double https http with
  | .ok clusterInfo => some clusterInfo.members
  | .error _ => none

theorem answerOf_eq_some {r : Reply} {members : List MemberInfo} :
    answerOf double r = some members ↔ DecodedFrom double members r := by
  cases r with
  | read status body =>
    rw [answerOf, decodedFrom_read, ← and_assoc, ← Bool.and_eq_true_iff]
    split
    · simp [*]
    · simp [*]
  | _ =>
    constructor
    · intro h
      cases h
    · rintro ⟨status, body, heq, -⟩
      cases heq

/-- The client hears the first answer, and nothing in an error response, where its fallback is
sound. -/
theorem heard_eq (h : SoundFallback double https http) :
    heard double https http = (answerOf double https <|> answerOf double http) := by
  cases hhttps : answersHTTPS double https with
  | true =>
    rw [heard, getClusterInfo_https hhttps, answerOf_eq_some.mpr (decodedFrom_https hhttps)]
    rfl
  | false =>
    have hnone : answerOf double https = none := by
      refine Option.eq_none_iff_forall_ne_some.mpr fun members hmembers => ?_
      rw [answersHTTPS_of_decodedFrom (answerOf_eq_some.mp hmembers)] at hhttps
      cases hhttps
    rw [hnone, heard]
    cases hget : getClusterInfo double https http with
    | ok v =>
      obtain ⟨status, body, rfl, hdecodes, rfl⟩ := (getClusterInfo_http hhttps).mp hget
      obtain ⟨hstatus, hmembers⟩ := h hhttps status body rfl hdecodes
      exact (answerOf_eq_some.mpr (decodedFrom_read.mpr ⟨hstatus, hdecodes, hmembers.symm⟩)).symm
    | error err =>
      symm
      refine Option.eq_none_iff_forall_ne_some.mpr fun members hmembers => ?_
      obtain ⟨status, body, rfl, -, hdecodes, -⟩ := answerOf_eq_some.mp hmembers
      rw [(getClusterInfo_http hhttps).mpr ⟨status, body, rfl, hdecodes, rfl⟩] at hget
      cases hget

/-- A number of an interface is a double. -/
def MemberInfo.member (int64 : Number → ℤ) (m : MemberInfo) : Member :=
  ⟨m.name, m.role, m.state, m.host, m.timeline,
    match m.lag with
    | some (.num x) => some (int64 x)
    | _ => none,
    m.tags, m.pendingRestart⟩

/-- A look in which every server is asked by this means. -/
def asking (w : Watch) (int64 : Number → ℤ) (ask : String → Option (List MemberInfo)) : Watch :=
  { w with getClusterInfo := fun ipAddress =>
      (ask (w.ipString ipAddress)).map fun members => ⟨members.map (MemberInfo.member int64)⟩ }

theorem poll_congr (w : Watch) (g : Inet → Option ConsoleHandleCluster.ClusterInfo)
    {servers : List Server} (h : ∀ s ∈ servers, g s.ipAddress = w.getClusterInfo s.ipAddress)
    (n : ℕ) : poll { w with getClusterInfo := g } n servers = poll w n servers := by
  induction servers generalizing n with
  | nil => rfl
  | cons s servers ih =>
    obtain ⟨hs, hservers⟩ := List.forall_mem_cons.mp h
    simp only [poll, hs, ih hservers]

/-- A look depends on the answers of the servers of the cluster only. -/
theorem handleCluster_congr (w : Watch) (g : Inet → Option ConsoleHandleCluster.ClusterInfo)
    {cl : Cluster} {d : Db}
    (h : ∀ s ∈ getClusterServers cl.clusterID d, g s.ipAddress = w.getClusterInfo s.ipAddress) :
    handleCluster { w with getClusterInfo := g } cl d = handleCluster w cl d := by
  have hpoll : poll { w with getClusterInfo := g } 0 (w.rowOrder (getClusterServers cl.clusterID d)) =
      poll w 0 (w.rowOrder (getClusterServers cl.clusterID d)) :=
    poll_congr w g (fun s hs => h s ((w.rowOrder_perm _).mem_iff.mp hs)) 0
  rw [handleCluster, handleCluster, handleClusterServers, handleClusterServers, hpoll]
  rfl

/-- GetClusterInfo trusts nothing but an answer exactly where its fallback is sound; where it is
for the servers of a cluster, a look does what it does when error responses are no answers. -/
theorem answers_trusted_iff (double : Number → Number) :
    (∀ https http, (∀ v, getClusterInfo double https http = .ok v →
        DecodedFrom double v.members https ∨ DecodedFrom double v.members http) ↔
      SoundFallback double https http) ∧
    ∀ (int64 : Number → ℤ) (w : Watch) (cl : Cluster) (d : Db) (https http : String → Reply),
      (∀ s ∈ getClusterServers cl.clusterID d,
        SoundFallback double (https (w.ipString s.ipAddress)) (http (w.ipString s.ipAddress))) →
      handleCluster (asking w int64 fun host => heard double (https host) (http host)) cl d =
        handleCluster (asking w int64 fun host =>
          answerOf double (https host) <|> answerOf double (http host)) cl d := by
  refine ⟨fun https http => trusted_iff, ?_⟩
  intro int64 w cl d https http h
  refine (handleCluster_congr (asking w int64 _) _ fun s hs => ?_).symm
  simp only [asking, heard_eq (h s hs)]

end Trust

/-- The value of a partly decoded body shows through the answer that follows. -/
example : (getClusterInfo id
      (.read 200 ("\x7b\"members\":[\x7b\"state\":\"running\",\"timeline\":\"1\"\x7d]\x7d".toList.map
        Utf8Text.latin1))
      (.read 200 ("\x7b\"members\":[\x7b\"name\":\"a\"\x7d]\x7d".toList.map
        Utf8Text.latin1))).toOption.map (fun c => c.members.map MemberInfo.state) =
    some ["running"] := by
  decide +kernel

/-- An error response without members. -/
def emptyError : Reply := .read 503 ("\x7b\x7d".toList.map Utf8Text.latin1)

/-- A cluster of one server that was seen running. -/
def seenRunning : Db :=
  handleCluster (ConsoleHandleCluster.calm
    (some ⟨[ConsoleHandleCluster.runningMember "10.0.0.1"]⟩)) ConsoleHandleCluster.importedCluster
    ConsoleHandleCluster.imported

def lookAtError : Db :=
  handleCluster (asking (ConsoleHandleCluster.calm none) (fun _ => 0) fun _ =>
    heard id (.failed "connection refused") emptyError)
    ((getCluster 1 seenRunning).getD ConsoleHandleCluster.importedCluster) seenRunning

theorem error_response_resets_server :
    (∃ v, getClusterInfo id (.failed "connection refused") emptyError = .ok v ∧
      ¬ (DecodedFrom id v.members (.failed "connection refused") ∨
        DecodedFrom id v.members emptyError)) ∧
    (seenRunning.servers.map Server.serverStatus = [some "running"] ∧
      seenRunning.clusters.map Cluster.clusterStatus = ["healthy"]) ∧
    lookAtError.servers.map Server.serverStatus = [some "N/A"] ∧
      lookAtError.clusters.map Cluster.clusterStatus = ["degraded"] := by
  refine ⟨⟨.zero, rfl, ?_⟩, ?_⟩
  · rintro (⟨status, body, heq, -⟩ | h)
    · cases heq
    · exact absurd (decodedFrom_read.mp h).1 (by decide)
  · decide +kernel

end PatroniClient
