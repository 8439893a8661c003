import Autobase.JsonMasking
import Autobase.JsonRoundTrip
import Autobase.Base64Text
import Autobase.Utf8Text
import Autobase.TransitionRuns
import Autobase.ConsolePostCluster

/-! # The log of requests and responses

The middleware logs the body of a request before it is handled and the body of the response
afterwards. A body that decodes into a map is logged with the values of the secret fields
replaced; one that does not is logged as it came. The response is recorded up to a limit. -/
namespace ConsoleRequestLog

open JsonText JsonAscii JsonRoundTrip JsonMasking TransitionRuns
open ConsoleLogEntity ConsolePostCluster

def secretFields : Replacements :=
  [("AWS_SECRET_ACCESS_KEY", "***"), ("GCP_SERVICE_ACCOUNT_CONTENTS", "***"),
    ("HCLOUD_API_TOKEN", "***"), ("SSH_PRIVATE_KEY", "***"), ("DO_API_TOKEN", "***"),
    ("PASSWORD", "***"), ("password", "***"), ("AZURE_SECRET", "***")]

/-! ## Decoding into a map -/

/-- What is outside of the repository: how the logger writes its own texts and the values it
marshals, and the shortest number that stands for the double of a number. -/
structure LogFormat where
  text : Layout
  value : Layout
  double : Number → Number

def keyOrder (m : VarMap) : VarMap := m.insertionSort fun a b => a.1 ≤ b.1

mutual
/-- A number without a double is nil, and a map has the last value of each key. -/
def interfaceValue (double : Number → Number) : Json → Json
  | .num x => if x.fitsFloat64 then .num (double x) else .null
  | .arr xs => .arr (interfaceElements double xs)
  | .obj kvs => .obj (keyOrder (mapOf (interfaceMembers double kvs)))
  | v => v

def interfaceElements (double : Number → Number) : List Json → List Json
  | [] => []
  | x :: xs => interfaceValue double x :: interfaceElements double xs

def interfaceMembers (double : Number → Number) : List (String × Json) → List (String × Json)
  | [] => []
  | (k, v) :: kvs => (k, interfaceValue double v) :: interfaceMembers double kvs
end

mutual
def nesting : Json → ℕ
  | .arr xs => nestingElements xs + 1
  | .obj kvs => nestingMembers kvs + 1
  | _ => 0

def nestingElements : List Json → ℕ
  | [] => 0
  | x :: xs => max (nesting x) (nestingElements xs)

def nestingMembers : List (String × Json) → ℕ
  | [] => 0
  | (_, v) :: kvs => max (nesting v) (nestingMembers kvs)
end

def maxNestingDepth : ℕ := 10000

/-- What ends up in a map that was nil; a number without a double does not stop the decoder. -/
def decodedMap (double : Number → Number) : Json → Option VarMap
  | .obj kvs =>
    if nesting (.obj kvs) ≤ maxNestingDepth then
      some (keyOrder (mapOf (interfaceMembers double kvs)))
    else none
  | _ => none

/-- Whether the decoder reports no error. -/
def fitsMap : Json → Bool
  | .obj kvs => decide (nesting (.obj kvs) ≤ maxNestingDepth) && fitMembers kvs
  | .null => true
  | _ => false

def unmarshal (double : Number → Number) (text : List Char) : Option VarMap × Bool :=
  match parse text with
  | some v => (decodedMap double v, fitsMap v)
  | none => (none, false)

/-! ## The logged strings -/

def marshalMap : Option VarMap → Json
  | none => .null
  | some m => .obj m

def hideSecrets (m : Option VarMap) : Json := marshalMap (m.map (replaceFields secretFields))

def requestBody (F : LogFormat) (body : List Char) : List Char :=
  match unmarshal F.double body with
  | (bodyInt, true) => render F.value 0 (hideSecrets bodyInt)
  | (_, false) => render F.text 0 (.str (String.ofList body))

def responseWriterBodyLimit : ℕ := 10000

structure ResponseWriter where
  body : List UInt8
  bodyOverflow : Bool
  deriving DecidableEq

def write (r : ResponseWriter) (b : List UInt8) : ResponseWriter :=
  if r.body.length < responseWriterBodyLimit then
    let maxWriteLen := responseWriterBodyLimit - r.body.length
    if b.length > maxWriteLen then ⟨r.body ++ b.take maxWriteLen, true⟩
    else { r with body := r.body ++ b }
  else r

/-- The recorder after the writes of a handler. -/
def recorded (writes : List (List UInt8)) : ResponseWriter := run write ⟨[], false⟩ writes

/-- Bytes are marshalled as base64. -/
def prepareBodyForLog (double : Number → Number) (r : ResponseWriter) : Json :=
  if r.bodyOverflow then .str (String.ofList (Base64Text.encode r.body))
  else hideSecrets (unmarshal double (Utf8Text.readText r.body)).1

def responseBody (F : LogFormat) (writes : List (List UInt8)) : List Char :=
  render F.value 0 (prepareBodyForLog F.double (recorded writes))

/-! ## Masks of decoded maps -/

section Keys

variable {g : String → Json → Json}

/-- A change of values that looks at the keys only. -/
def onValues (g : String → Json → Json) (p : String × Json) : String × Json := (p.1, g p.1 p.2)

theorem setVar_onValues (k : String) (v : Json) (m : VarMap) :
    (setVar k v m).map (onValues g) = setVar k (g k v) (m.map (onValues g)) := by
  induction m with
  | nil => rfl
  | cons p m ih =>
    obtain ⟨l, w⟩ := p
    simp only [setVar, List.map_cons, onValues]
    split
    · next h => simp only [List.map_cons, onValues, h]
    · simp only [List.map_cons, onValues, ← ih]

theorem mapOf_onValues (kvs : List (String × Json)) :
    (mapOf kvs).map (onValues g) = mapOf (kvs.map (onValues g)) := by
  have hfold : ∀ m : VarMap,
      (kvs.foldl (fun m kv => setVar kv.1 kv.2 m) m).map (onValues g) =
        (kvs.map (onValues g)).foldl (fun m kv => setVar kv.1 kv.2 m) (m.map (onValues g)) := by
    induction kvs with
    | nil => exact fun m => rfl
    | cons kv kvs ih =>
      intro m
      rw [List.foldl_cons, ih, setVar_onValues]
      rfl
  exact hfold []

theorem keyOrder_onValues (m : VarMap) :
    (keyOrder m).map (onValues g) = keyOrder (m.map (onValues g)) :=
  List.map_insertionSort _ _ (onValues g) m fun _ _ _ _ => Iff.rfl

end Keys

section Masks

variable {R : Replacements} {double : Number → Number}

theorem maskMembers_eq (m : VarMap) :
    maskMembers R m = m.map (onValues fun k v => replacementOr R k (mask R v)) :=
  maskMembers_eq_map m

theorem mask_map (kvs : List (String × Json)) :
    maskMembers R (keyOrder (mapOf kvs)) = keyOrder (mapOf (maskMembers R kvs)) := by
  rw [maskMembers_eq, maskMembers_eq, keyOrder_onValues, mapOf_onValues]

mutual
/-- The decoder and the mask do not meet. -/
theorem mask_interfaceValue : ∀ v : Json,
    mask R (interfaceValue double v) = interfaceValue double (mask R v)
  | .null => rfl
  | .bool _ => rfl
  | .num x => by
    simp only [mask, interfaceValue]
    split <;> rfl
  | .str _ => rfl
  | .arr xs => by simp only [mask, interfaceValue, mask_interfaceElements xs]
  | .obj kvs => by simp only [mask, interfaceValue, mask_map, mask_interfaceMembers kvs]

theorem mask_interfaceElements : ∀ xs : List Json,
    maskElements R (interfaceElements double xs) = interfaceElements double (maskElements R xs)
  | [] => rfl
  | x :: xs => by
    simp only [maskElements, interfaceElements, mask_interfaceValue x, mask_interfaceElements xs]

theorem mask_interfaceMembers : ∀ kvs : List (String × Json),
    maskMembers R (interfaceMembers double kvs) = interfaceMembers double (maskMembers R kvs)
  | [] => rfl
  | (k, v) :: kvs => by
    have hv : replacementOr R k (mask R (interfaceValue double v)) =
        interfaceValue double (replacementOr R k (mask R v)) := by
      cases h : R.lookup k with
      | some r => rw [replacementOr_named h, replacementOr_named h]; rfl
      | none =>
        rw [replacementOr_unnamed h, replacementOr_unnamed h]
        exact mask_interfaceValue v
    simp only [maskMembers, interfaceMembers, hv, mask_interfaceMembers kvs]
end

theorem decodedMap_eq_some {u : Json} {m : VarMap} (h : decodedMap double u = some m) :
    ∃ kvs, u = .obj kvs ∧ m = keyOrder (mapOf (interfaceMembers double kvs)) := by
  cases u with
  | obj kvs =>
    simp only [decodedMap] at h
    split at h
    · exact ⟨kvs, rfl, (Option.some.inj h).symm⟩
    · cases h
  | _ => cases h

/-- Bodies with one mask decode into maps with one mask, if they decode. -/
theorem masked_decodedMap {u v : Json} (hmask : mask R u = mask R v)
    (hdecoded : (decodedMap double u).isSome = (decodedMap double v).isSome) :
    (decodedMap double u).map (maskMembers R) = (decodedMap double v).map (maskMembers R) := by
  cases hu : decodedMap double u with
  | none =>
    rw [hu] at hdecoded
    rw [Option.isSome_eq_false_iff.mp hdecoded.symm |> Option.isNone_iff_eq_none.mp]
  | some m =>
    rw [hu] at hdecoded
    obtain ⟨n, hv⟩ := Option.isSome_iff_exists.mp hdecoded.symm
    obtain ⟨kvs, rfl, rfl⟩ := decodedMap_eq_some hu
    obtain ⟨lvs, rfl, rfl⟩ := decodedMap_eq_some hv
    have hmembers : maskMembers R kvs = maskMembers R lvs := Json.obj.inj hmask
    rw [hv, Option.map_some, Option.map_some, mask_map, mask_map, mask_interfaceMembers,
      mask_interfaceMembers, hmembers]

end Masks

/-! ## What two logged strings have in common -/

def masked (m : Option VarMap) : Option VarMap := m.map (maskMembers secretFields)

/-- The arrays inside of arrays, outside of the secret fields. -/
def passedArrays (m : Option VarMap) : List (List Json) :=
  (m.map (passedFields secretFields)).getD []

theorem hideSecrets_eq_iff {m n : Option VarMap} : hideSecrets m = hideSecrets n ↔
    masked m = masked n ∧ passedArrays m = passedArrays n := by
  cases m with
  | none => cases n <;> simp [hideSecrets, marshalMap, masked]
  | some m =>
    cases n with
    | none => simp [hideSecrets, marshalMap, masked]
    | some n =>
      simp only [hideSecrets, marshalMap, masked, passedArrays, Option.map_some, Json.obj.injEq,
        Option.some.injEq, Option.getD_some]
      exact replaceFields_eq_iff

theorem hideSecrets_ne_str (m : Option VarMap) (s : String) : hideSecrets m ≠ .str s := by
  cases m <;> exact fun h => nomatch h

/-! ## Requests -/

section Requests

variable {F : LogFormat} {a b : List Char} {u v : Json}

theorem requestBody_fits (ha : parse a = some u) (hu : fitsMap u = true) :
    requestBody F a = render F.value 0 (hideSecrets (decodedMap F.double u)) := by
  simp only [requestBody, unmarshal, ha, hu]

theorem requestBody_raw (ha : parse a = some u) (hu : fitsMap u = false) :
    requestBody F a = render F.text 0 (.str (String.ofList a)) := by
  simp only [requestBody, unmarshal, ha, hu]

/-- A raw text is a string, a map is none. -/
theorem requestBody_ne (ha : parse a = some u) (hu : fitsMap u = true) (hb : parse b = some v)
    (hv : fitsMap v = false) : requestBody F a ≠ requestBody F b := by
  intro h
  rw [requestBody_fits ha hu, requestBody_raw hb hv] at h
  exact hideSecrets_ne_str _ _ (render_inj h)

theorem decodedMap_isSome (hmask : mask secretFields u = mask secretFields v)
    (hu : fitsMap u = true) (hv : fitsMap v = true) :
    (decodedMap F.double u).isSome = (decodedMap F.double v).isSome := by
  cases u with
  | obj m =>
    obtain ⟨n, rfl, -⟩ := mask_obj hmask
    simp only [fitsMap, Bool.and_eq_true, decide_eq_true_eq] at hu hv
    simp only [decodedMap, hu.1, hv.1, if_true, Option.isSome_some]
  | null => rw [← eq_of_mask_leaf hmask trivial]
  | _ => cases hu

theorem requestBody_eq_iff (ha : parse a = some u) (hb : parse b = some v)
    (hmask : mask secretFields u = mask secretFields v) :
    requestBody F a = requestBody F b ↔ a = b ∨ (fitsMap u = true ∧ fitsMap v = true ∧
      passedArrays (decodedMap F.double u) = passedArrays (decodedMap F.double v)) := by
  constructor
  · intro h
    cases hu : fitsMap u with
    | true =>
      cases hv : fitsMap v with
      | true =>
        rw [requestBody_fits ha hu, requestBody_fits hb hv] at h
        exact Or.inr ⟨rfl, rfl, (hideSecrets_eq_iff.mp (render_inj h)).2⟩
      | false => exact absurd h (requestBody_ne ha hu hb hv)
    | false =>
      cases hv : fitsMap v with
      | true => exact absurd h.symm (requestBody_ne hb hv ha hu)
      | false =>
        rw [requestBody_raw ha hu, requestBody_raw hb hv] at h
        exact Or.inl (String.ofList_injective (Json.str.inj (render_inj h)))
  · rintro (rfl | ⟨hu, hv, hpassed⟩)
    · rfl
    · have hmasked := masked_decodedMap hmask (decodedMap_isSome (F := F) hmask hu hv)
      rw [requestBody_fits ha hu, requestBody_fits hb hv, hideSecrets_eq_iff.mpr ⟨hmasked, hpassed⟩]

end Requests

/-! ## Responses -/

section Responses

variable {F : LogFormat} {r s : ResponseWriter} {ws xs : List (List UInt8)} {u v : Json}

def recordedMap (double : Number → Number) (r : ResponseWriter) : Option VarMap :=
  (unmarshal double (Utf8Text.readText r.body)).1

/-- What the log shows of two recorded bodies: of a body over the limit every byte up to it, of
another one the mask and the passed arrays. -/
structure RecordedAlike (double : Number → Number) (r s : ResponseWriter) : Prop where
  overflow : r.bodyOverflow = s.bodyOverflow
  raw : r.bodyOverflow = true → r.body = s.body
  masked : r.bodyOverflow = false → masked (recordedMap double r) = masked (recordedMap double s)
  passed : r.bodyOverflow = false →
    passedArrays (recordedMap double r) = passedArrays (recordedMap double s)

theorem encode_injective {bs cs : List UInt8} (h : Base64Text.encode bs = Base64Text.encode cs) :
    bs = cs := by
  have hdecode := congrArg Base64Text.decode h
  rw [Base64Text.decode_encode, Base64Text.decode_encode] at hdecode
  exact Option.some.inj hdecode

theorem prepareBodyForLog_overflow {double : Number → Number} (h : r.bodyOverflow = true) :
    prepareBodyForLog double r = .str (String.ofList (Base64Text.encode r.body)) := by
  rw [prepareBodyForLog, if_pos h]

theorem prepareBodyForLog_map {double : Number → Number} (h : r.bodyOverflow = false) :
    prepareBodyForLog double r = hideSecrets (recordedMap double r) := by
  rw [prepareBodyForLog, if_neg (by simp [h])]
  rfl

theorem prepareBodyForLog_eq_iff {double : Number → Number} :
    prepareBodyForLog double r = prepareBodyForLog double s ↔ RecordedAlike double r s := by
  constructor
  · intro h
    cases hr : r.bodyOverflow with
    | true =>
      cases hs : s.bodyOverflow with
      | true =>
        rw [prepareBodyForLog_overflow hr, prepareBodyForLog_overflow hs] at h
        have hbody := encode_injective (String.ofList_injective (Json.str.inj h))
        exact ⟨hr.trans hs.symm, fun _ => hbody, by simp [hr], by simp [hr]⟩
      | false =>
        rw [prepareBodyForLog_overflow hr, prepareBodyForLog_map hs] at h
        exact absurd h.symm (hideSecrets_ne_str _ _)
    | false =>
      cases hs : s.bodyOverflow with
      | true =>
        rw [prepareBodyForLog_map hr, prepareBodyForLog_overflow hs] at h
        exact absurd h (hideSecrets_ne_str _ _)
      | false =>
        rw [prepareBodyForLog_map hr, prepareBodyForLog_map hs] at h
        obtain ⟨hmask, hpassed⟩ := hideSecrets_eq_iff.mp h
        exact ⟨hr.trans hs.symm, by simp [hr], fun _ => hmask, fun _ => hpassed⟩
  · intro h
    cases hr : r.bodyOverflow with
    | true =>
      have hs : s.bodyOverflow = true := h.overflow.symm.trans hr
      rw [prepareBodyForLog_overflow hr, prepareBodyForLog_overflow hs, h.raw hr]
    | false =>
      have hs : s.bodyOverflow = false := h.overflow.symm.trans hr
      rw [prepareBodyForLog_map hr, prepareBodyForLog_map hs]
      exact hideSecrets_eq_iff.mpr ⟨h.masked hr, h.passed hr⟩

theorem responseBody_eq_iff : responseBody F ws = responseBody F xs ↔
    RecordedAlike F.double (recorded ws) (recorded xs) := by
  rw [← prepareBodyForLog_eq_iff]
  constructor
  · exact render_inj
  · intro h
    rw [responseBody, responseBody, h]

theorem write_body {b : List UInt8} (h : r.body.length ≤ responseWriterBodyLimit) :
    (write r b).body = (r.body ++ b).take responseWriterBodyLimit := by
  rw [List.take_append, List.take_of_length_le h]
  simp only [write]
  split
  · split
    · rfl
    · next hle => rw [List.take_of_length_le (by omega)]
  · next hge => rw [Nat.sub_eq_zero_of_le (by omega), List.take_zero, List.append_nil]

/-- However the body is cut into writes, its beginning up to the limit is recorded. -/
theorem recorded_body (ws : List (List UInt8)) :
    (recorded ws).body = ws.flatten.take responseWriterBodyLimit := by
  have hrun : ∀ r : ResponseWriter, r.body.length ≤ responseWriterBodyLimit →
      (run write r ws).body = (r.body ++ ws.flatten).take responseWriterBodyLimit := by
    induction ws with
    | nil =>
      intro r hr
      rw [run_nil, List.flatten_nil, List.append_nil, List.take_of_length_le hr]
    | cons b ws ih =>
      intro r hr
      have hlength : (write r b).body.length ≤ responseWriterBodyLimit := by
        rw [write_body hr]
        exact List.length_take_le _ _
      have hrest : responseWriterBodyLimit -
          min responseWriterBodyLimit (r.body ++ b).length =
            responseWriterBodyLimit - (r.body ++ b).length := by
        omega
      rw [run_cons, ih _ hlength, write_body hr, List.flatten_cons, ← List.append_assoc,
        List.take_append, List.take_take, Nat.min_self, List.length_take, hrest,
        ← List.take_append]
  exact hrun ⟨[], false⟩ (Nat.zero_le _)

/-- A body within the limit is recorded as it is. -/
theorem write_within {body b : List UInt8}
    (h : body.length + b.length ≤ responseWriterBodyLimit) :
    write ⟨body, false⟩ b = ⟨body ++ b, false⟩ := by
  rw [write]
  split
  · next hlt => rw [if_neg (by simp only at hlt ⊢; omega)]
  · next hge =>
    have hb : b = [] := List.eq_nil_of_length_eq_zero (by simp only at hge; omega)
    rw [hb, List.append_nil]

theorem recorded_within (h : ws.flatten.length ≤ responseWriterBodyLimit) :
    recorded ws = ⟨ws.flatten, false⟩ := by
  have hrun : ∀ body : List UInt8, body.length + ws.flatten.length ≤ responseWriterBodyLimit →
      run write ⟨body, false⟩ ws = ⟨body ++ ws.flatten, false⟩ := by
    clear h
    induction ws with
    | nil =>
      intro body _
      rw [run_nil, List.flatten_nil, List.append_nil]
    | cons b ws ih =>
      intro body hbody
      rw [List.flatten_cons, List.length_append] at hbody
      rw [run_cons, write_within (by omega), ih _ (by rw [List.length_append]; omega),
        List.flatten_cons, List.append_assoc]
  exact hrun [] (by simpa using h)

/-- Of bodies within the limit the log hides everything but the passed arrays. -/
theorem short_bodies_iff (hws : parse (Utf8Text.readText ws.flatten) = some u)
    (hxs : parse (Utf8Text.readText xs.flatten) = some v)
    (hmask : mask secretFields u = mask secretFields v)
    (hwsLength : ws.flatten.length ≤ responseWriterBodyLimit)
    (hxsLength : xs.flatten.length ≤ responseWriterBodyLimit) :
    responseBody F ws = responseBody F xs ↔
      (decodedMap F.double u).isSome = (decodedMap F.double v).isSome ∧
        passedArrays (decodedMap F.double u) = passedArrays (decodedMap F.double v) := by
  have hu : recordedMap F.double (recorded ws) = decodedMap F.double u := by
    rw [recorded_within hwsLength]
    simp only [recordedMap, unmarshal, hws]
  have hv : recordedMap F.double (recorded xs) = decodedMap F.double v := by
    rw [recorded_within hxsLength]
    simp only [recordedMap, unmarshal, hxs]
  have hwsFlow : (recorded ws).bodyOverflow = false := by rw [recorded_within hwsLength]
  have hxsFlow : (recorded xs).bodyOverflow = false := by rw [recorded_within hxsLength]
  rw [responseBody_eq_iff]
  constructor
  · intro h
    have hmasked := h.masked hwsFlow
    have hpassed := h.passed hwsFlow
    rw [hu, hv] at hmasked hpassed
    refine ⟨?_, hpassed⟩
    have hisSome := congrArg Option.isSome hmasked
    rwa [masked, masked, Option.isSome_map, Option.isSome_map] at hisSome
  · rintro ⟨hdecoded, hpassed⟩
    refine ⟨hwsFlow.trans hxsFlow.symm, by simp [hwsFlow], fun _ => ?_, fun _ => ?_⟩
    · rw [hu, hv]
      exact masked_decodedMap hmask hdecoded
    · rw [hu, hv, hpassed]

end Responses

/-! ## Two bodies that differ in their secrets -/

/-- The requests are logged alike exactly when the bodies are one text or both maps with the
same passed arrays; the responses when their records show the same, which within the limit is
again a matter of the passed arrays. -/
theorem bodies_logged_alike_iff (F : LogFormat) {a b : List Char} {u v : Json}
    (ha : parse a = some u) (hb : parse b = some v)
    (hmask : mask secretFields u = mask secretFields v) {ws xs : List (List UInt8)}
    (hws : Utf8Text.readText ws.flatten = a) (hxs : Utf8Text.readText xs.flatten = b) :
    (requestBody F a = requestBody F b ↔ a = b ∨ (fitsMap u = true ∧ fitsMap v = true ∧
      passedArrays (decodedMap F.double u) = passedArrays (decodedMap F.double v))) ∧
    (responseBody F ws = responseBody F xs ↔ RecordedAlike F.double (recorded ws) (recorded xs)) ∧
    (ws.flatten.length ≤ responseWriterBodyLimit → xs.flatten.length ≤ responseWriterBodyLimit →
      (responseBody F ws = responseBody F xs ↔
        (decodedMap F.double u).isSome = (decodedMap F.double v).isSome ∧
          passedArrays (decodedMap F.double u) = passedArrays (decodedMap F.double v))) := by
  subst hws hxs
  refine ⟨requestBody_eq_iff ha hb hmask, responseBody_eq_iff, ?_⟩
  intro hwsLength hxsLength
  exact short_bodies_iff ha hb hmask hwsLength hxsLength

def logFormat : LogFormat := ⟨compactLayout, compactLayout, id⟩

/-- A secret in an object of a list. -/
def serverBody (secret : String) : Json :=
  .obj [("servers", .arr [.obj [("password", .str secret)]])]

def bodyText (v : Json) : List Char := render compactLayout 0 v

theorem server_bodies_alike :
    (requestBody logFormat (bodyText (serverBody "one")) =
        requestBody logFormat (bodyText (serverBody "two")) ↔
      bodyText (serverBody "one") = bodyText (serverBody "two") ∨
        (fitsMap (serverBody "one") = true ∧ fitsMap (serverBody "two") = true ∧
          passedArrays (decodedMap id (serverBody "one")) =
            passedArrays (decodedMap id (serverBody "two")))) ∧
    (responseBody logFormat [(bodyText (serverBody "one")).map Utf8Text.latin1] =
        responseBody logFormat [(bodyText (serverBody "two")).map Utf8Text.latin1] ↔
      RecordedAlike id (recorded [(bodyText (serverBody "one")).map Utf8Text.latin1])
        (recorded [(bodyText (serverBody "two")).map Utf8Text.latin1])) ∧
    ([(bodyText (serverBody "one")).map Utf8Text.latin1].flatten.length ≤
        responseWriterBodyLimit →
      [(bodyText (serverBody "two")).map Utf8Text.latin1].flatten.length ≤
        responseWriterBodyLimit →
      (responseBody logFormat [(bodyText (serverBody "one")).map Utf8Text.latin1] =
          responseBody logFormat [(bodyText (serverBody "two")).map Utf8Text.latin1] ↔
        (decodedMap id (serverBody "one")).isSome = (decodedMap id (serverBody "two")).isSome ∧
          passedArrays (decodedMap id (serverBody "one")) =
            passedArrays (decodedMap id (serverBody "two")))) :=
  bodies_logged_alike_iff logFormat (parse_render compactLayout (serverBody "one"))
    (parse_render compactLayout (serverBody "two")) rfl (by decide +kernel) (by decide +kernel)

/-- The list holds another list. -/
def nestedBody (secret : String) : Json :=
  .obj [("servers", .arr [.arr [.obj [("password", .str secret)]]])]

theorem nested_body_shown : ¬ ∀ (F : LogFormat) (a b : List Char) (u v : Json),
    parse a = some u → parse b = some v → mask secretFields u = mask secretFields v →
      requestBody F a = requestBody F b ∧
        ∀ ws xs : List (List UInt8), Utf8Text.readText ws.flatten = a →
          Utf8Text.readText xs.flatten = b → responseBody F ws = responseBody F xs := by
  intro h
  have hequal := (h logFormat (bodyText (nestedBody "one")) (bodyText (nestedBody "two"))
    (nestedBody "one") (nestedBody "two") (parse_render compactLayout _)
    (parse_render compactLayout _) rfl).1
  have hdifferent : requestBody logFormat (bodyText (nestedBody "one")) ≠
      requestBody logFormat (bodyText (nestedBody "two")) := by
    decide +kernel
  exact hdifferent hequal

end ConsoleRequestLog
