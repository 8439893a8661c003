import Autobase.MergePatch
import Autobase.JsonAscii
import Autobase.JsonRoundTrip

/-! # The dynamic configuration

The tasks on the primary send one request for each parameter and one for the slots. A body is
put together from texts, and Patroni merges the mapping it reads there into its configuration. -/
namespace PatroniDynamicConfig

open JsonText JsonRoundTrip JsonAscii ObjectLiterals MergePatch

/-! ## Requests -/

/-- A body is taken when it is the text of a mapping. -/
def bodyMembers (body : List Char) : Option Members :=
  match parse body with
  | some (.obj members) => some members
  | _ => none

/-- PATCH /config -/
def patch (body : List Char) (config : Members) : Option Members :=
  (bodyMembers body).map (patchMembers config)

def inQuotes (text : List Char) : List Char := '"' :: (text ++ ['"'])

def braced (text : List Char) : List Char := '{' :: (text ++ ['}'])

def entry (key text : List Char) : List Char := inQuotes key ++ ':' :: text

/-! ## Slots -/

def blanks (n : ℕ) : List Char := List.replicate n ' '

def newline (indent : ℕ) : List Char := '\n' :: blanks indent

/-- A permanent slot: its name and the other items of its declaration, of which there is at least
the type. Names have no character that would need an escape. -/
structure DeclaredSlot where
  slot : List Char
  attributes : List (List Char × Json)
  named : slot.all standsForItself = true
  keyed : attributes.all (fun a => a.1.all standsForItself) = true
  typed : attributes ≠ []

/-- The filter of the template writes a value as a text that is read as the value. -/
structure ToJson where
  text : Json → List Char
  written : ∀ v, Written (text v) v

variable (F : ToJson)

/-- A key and a value with the blank the template has after the colon. -/
def spacedEntry (key text : List Char) : List Char := inQuotes key ++ ':' :: ' ' :: text

def DeclaredSlot.text (s : DeclaredSlot) : List Char :=
  spacedEntry s.slot ('{' :: (newline 10 ++ (blanks 12 ++
    joined (',' :: (blanks 10 ++ blanks 12))
      (s.attributes.map fun a => spacedEntry a.1 (F.text a.2)) ++
    (blanks 10 ++ blanks 8)) ++ ['}']))

def updateSlotsBody (slots : List DeclaredSlot) : List Char :=
  '{' :: (newline 2 ++ spacedEntry "postgresql".toList
    ('{' :: (newline 4 ++ spacedEntry "slots".toList
      ('{' :: (newline 6 ++ (blanks 8 ++
        joined (',' :: (blanks 6 ++ blanks 8)) (slots.map (DeclaredSlot.text F)) ++
        (blanks 6 ++ blanks 4)) ++ ['}'])) ++
      newline 2 ++ ['}'])) ++
    newline 0 ++ ['}'])

def deleteSlotsBody : List Char :=
  braced (entry "postgresql".toList (braced (entry "slots".toList "null".toList)))

/-- The two tasks of the slots, of which one takes place. -/
def slotTasks (slots : List DeclaredSlot) (config : Members) : Option Members :=
  if slots = [] then patch deleteSlotsBody config else patch (updateSlotsBody F slots) config

/-! ## What is declared -/

def DeclaredSlot.members (s : DeclaredSlot) : Members :=
  s.attributes.map fun a => (String.ofList a.1, a.2)

def DeclaredSlot.member (s : DeclaredSlot) : String × Json := (String.ofList s.slot, .obj s.members)

def declared (slots : List DeclaredSlot) : Members := object (slots.map DeclaredSlot.member)

/-- Two mappings with the same members, or no entry on either side. -/
def SameEntry : Option Json → Option Json → Prop
  | none, none => True
  | some (.obj m), some (.obj n) => ∀ key, m.lookup key = n.lookup key
  | _, _ => False

/-- The permanent slots of the configuration are the declared ones. -/
def Converged (slots : List DeclaredSlot) (config : Members) : Prop :=
  ∀ name, SameEntry ((mapping (config.lookup "slots")).lookup name) ((declared slots).lookup name)

/-! ## Texts that are read -/

variable {F} {key text t : List Char} {v : Json}

theorem memberText_entry (hkey : key.all standsForItself = true) :
    memberText (verbatimLayout 0) (String.ofList key) t = entry key t := by
  rw [memberText, quoted_verbatim (List.all_eq_true.mp hkey)]
  rfl

theorem memberText_spacedEntry (hkey : key.all standsForItself = true) :
    memberText (verbatimLayout 1) (String.ofList key) t = spacedEntry key t := by
  rw [memberText, quoted_verbatim (List.all_eq_true.mp hkey)]
  rfl

theorem written_inQuotes (h : text.all standsForItself = true) :
    Written (inQuotes text) (.str (String.ofList text)) := by
  have hwritten := written_quoted (verbatimLayout 0) (String.ofList text)
  rwa [quoted_verbatim (List.all_eq_true.mp h)] at hwritten

theorem written_null : Written "null".toList .null := written_render compactLayout .null 0

theorem blank_nil : ∀ c ∈ ([] : List Char), isBlank c = true := List.forall_mem_nil _

theorem written_braced (hkey : key.all standsForItself = true) (h : Written t v) :
    Written (braced (entry key t)) (.obj [(String.ofList key, v)]) := by
  have hmembers : List.Forall₂ (WrittenMember (verbatimLayout 0)) [(String.ofList key, v)]
      [entry key t] :=
    .cons ⟨t, (memberText_entry hkey).symm, h⟩ .nil
  have hobject := written_object blank_nil blank_nil blank_nil hmembers (List.cons_ne_nil _ _)
  simpa [joined, braced] using hobject

theorem blank_blanks (n : ℕ) : ∀ c ∈ blanks n, isBlank c = true := by
  intro c hc
  rw [List.eq_of_mem_replicate hc]
  rfl

theorem blank_newline (n : ℕ) : ∀ c ∈ newline n, isBlank c = true := by
  intro c hc
  rcases List.mem_cons.mp hc with rfl | hc
  · rfl
  · exact blank_blanks n c hc

theorem blank_append {b d : List Char} (hb : ∀ c ∈ b, isBlank c = true)
    (hd : ∀ c ∈ d, isBlank c = true) : ∀ c ∈ b ++ d, isBlank c = true :=
  List.forall_mem_append.mpr ⟨hb, hd⟩

theorem written_spaced (key : List Char) {opening close : List Char}
    (hopen : ∀ c ∈ opening, isBlank c = true)
    (hclose : ∀ c ∈ close, isBlank c = true) (hkey : key.all standsForItself = true)
    (h : Written t v) :
    Written ('{' :: (opening ++ spacedEntry key t ++ close ++ ['}']))
      (.obj [(String.ofList key, v)]) := by
  have hmembers : List.Forall₂ (WrittenMember (verbatimLayout 1)) [(String.ofList key, v)]
      [spacedEntry key t] :=
    .cons ⟨t, (memberText_spacedEntry hkey).symm, h⟩ .nil
  have hobject := written_object hopen blank_nil hclose hmembers (List.cons_ne_nil _ _)
  simpa [joined] using hobject

theorem written_slot (s : DeclaredSlot) :
    WrittenMember (verbatimLayout 1) s.member (s.text F) := by
  refine ⟨_, (memberText_spacedEntry s.named).symm, ?_⟩
  have hmembers : List.Forall₂ (WrittenMember (verbatimLayout 1)) s.members
      (s.attributes.map fun a => spacedEntry a.1 (F.text a.2)) := by
    rw [DeclaredSlot.members, List.forall₂_map_left_iff, List.forall₂_map_right_iff,
      List.forall₂_same]
    intro a ha
    have hkey := List.all_eq_true.mp s.keyed a ha
    exact ⟨F.text a.2, (memberText_spacedEntry hkey).symm, F.written a.2⟩
  have hne : s.members ≠ [] := by simpa [DeclaredSlot.members] using s.typed
  have hobject := written_object (blank_append (blank_newline 10) (blank_blanks 12))
    (blank_append (blank_blanks 10) (blank_blanks 12))
    (blank_append (blank_blanks 10) (blank_blanks 8)) hmembers hne
  simpa [DeclaredSlot.member] using hobject

theorem bodyMembers_of_written {body : List Char} {m : Members} (h : Written body (.obj m)) :
    bodyMembers body = some m := by
  have hparse := h.parse (List.forall_mem_nil _)
  rw [List.append_nil] at hparse
  rw [bodyMembers, hparse]

theorem bodyMembers_deleteSlots :
    bodyMembers deleteSlotsBody = some [("postgresql", .obj [("slots", .null)])] :=
  bodyMembers_of_written (written_braced rfl (written_braced rfl written_null))

theorem bodyMembers_updateSlots {slots : List DeclaredSlot} (hne : slots ≠ []) :
    bodyMembers (updateSlotsBody F slots) =
      some [("postgresql", .obj [("slots", .obj (slots.map DeclaredSlot.member))])] := by
  have hmembers : List.Forall₂ (WrittenMember (verbatimLayout 1))
      (slots.map DeclaredSlot.member) (slots.map (DeclaredSlot.text F)) := by
    rw [List.forall₂_map_left_iff, List.forall₂_map_right_iff, List.forall₂_same]
    exact fun s _ => written_slot s
  have hslots := written_object (blank_append (blank_newline 6) (blank_blanks 8))
    (blank_append (blank_blanks 6) (blank_blanks 8))
    (blank_append (blank_blanks 6) (blank_blanks 4)) hmembers (by simpa using hne)
  have hpostgresql := written_spaced "slots".toList (blank_newline 4) (blank_newline 2) rfl hslots
  have hbody := written_spaced "postgresql".toList (blank_newline 2) (blank_newline 0) rfl
    hpostgresql
  apply bodyMembers_of_written
  simpa [updateSlotsBody] using hbody

/-! ## Texts that are not read -/

/-- No value is read where the text stands, whatever follows. -/
def Unread (t : List Char) : Prop := ∀ n rest, readValue n (t ++ rest) = none

theorem readString_control {t : List Char} (h : t.all standsForItself = false)
    (hquote : '"' ∉ t) (hescape : '\\' ∉ t) (n : ℕ) (rest : List Char) :
    readString n (t ++ rest) = none := by
  induction t generalizing n with
  | nil => cases h
  | cons c t ih =>
    obtain ⟨hcq, htq⟩ := not_or.mp (mt List.mem_cons.mpr hquote)
    obtain ⟨hce, hte⟩ := not_or.mp (mt List.mem_cons.mpr hescape)
    cases n with
    | zero => rfl
    | succ n =>
      rw [List.cons_append, readString_succ (Ne.symm hcq)]
      by_cases hc : 32 ≤ c.toNat
      · have hself : standsForItself c = true := by
          simp [standsForItself, Ne.symm hcq, Ne.symm hce, hc]
        rw [List.all_cons, hself, Bool.true_and] at h
        rw [readChar_plain (Ne.symm hcq) (Ne.symm hce) hc, Option.bind_some, ih h htq hte]
        rfl
      · rw [readChar_control (Ne.symm hce) (Nat.lt_of_not_le hc), Option.bind_none]

theorem unread_inQuotes (h : text.all standsForItself = false) (hquote : '"' ∉ text)
    (hescape : '\\' ∉ text) : Unread (inQuotes text) := by
  intro n rest
  cases n with
  | zero => rfl
  | succ n =>
    rw [inQuotes, List.cons_append, List.append_assoc, readValue, skipBlanks_solid (by decide)]
    simp only [readString_control h hquote hescape, Option.map_none]

theorem readMembers_unread (hkey : key.all standsForItself = true) (h : Unread t) (n : ℕ)
    (rest : List Char) : readMembers n (entry key t ++ rest) = none := by
  cases n with
  | zero => rfl
  | succ n =>
    have hliteral := readString_literal (verbatimLayout 0) (String.ofList key)
      (':' :: (t ++ rest))
    have hquoted : entry key t ++ rest =
        quoted (verbatimLayout 0) (String.ofList key) ++ (':' :: (t ++ rest)) := by
      rw [quoted_verbatim (List.all_eq_true.mp hkey)]
      simp [entry, inQuotes]
    simp only at hliteral
    rw [hquoted, quoted, List.cons_append, List.append_assoc, readMembers,
      skipBlanks_solid (by decide)]
    simp only [List.cons_append, List.nil_append, hliteral, skipBlanks_solid (c := ':') (by decide),
      h n rest]

theorem unread_braced (hkey : key.all standsForItself = true) (h : Unread t) :
    Unread (braced (entry key t)) := by
  intro n rest
  cases n with
  | zero => rfl
  | succ n =>
    have hmembers := readMembers_unread hkey h n ('}' :: rest)
    rw [entry, inQuotes, List.cons_append, List.cons_append] at hmembers
    rw [braced, entry, inQuotes, List.cons_append, List.append_assoc, readValue,
      skipBlanks_solid (by decide)]
    simp only [List.cons_append, List.nil_append, skipBlanks_solid (c := '"') (by decide)]
    change (readMembers n _).map _ = none
    rw [hmembers, Option.map_none]

theorem bodyMembers_of_unread {body : List Char} (h : Unread body) : bodyMembers body = none := by
  have hread := h (body.length + 1) []
  rw [List.append_nil] at hread
  rw [bodyMembers, parse, hread]

/-! ## Where the slots are written -/

variable {slots : List DeclaredSlot} {config config' : Members}

theorem slotTasks_eq (F : ToJson) (slots : List DeclaredSlot) (config : Members) :
    ∃ v, slotTasks F slots config =
      some (patchMembers config [("postgresql", .obj [("slots", v)])]) := by
  rw [slotTasks]
  split
  · exact ⟨.null, by rw [patch, bodyMembers_deleteSlots, Option.map_some]⟩
  · rename_i hne
    exact ⟨_, by rw [patch, bodyMembers_updateSlots hne, Option.map_some]⟩

/-- Both requests go below the key postgresql: the permanent slots stay as they are. -/
theorem lookup_slotTasks (h : slotTasks F slots config = some config') {key : String}
    (hkey : key ≠ "postgresql") : config'.lookup key = config.lookup key := by
  obtain ⟨v, htasks⟩ := slotTasks_eq F slots config
  rw [htasks, Option.some.injEq] at h
  rw [← h]
  exact lookup_patchMembers_other (by simpa [keys] using hkey)

/-- The slots have converged after the tasks exactly when they had before. -/
theorem slots_converge_iff (F : ToJson) (slots : List DeclaredSlot) (config : Members) :
    (∀ config', slotTasks F slots config = some config' → Converged slots config') ↔
      Converged slots config := by
  have hkeep : ∀ config', slotTasks F slots config = some config' →
      (Converged slots config' ↔ Converged slots config) := by
    intro config' h
    rw [Converged, Converged, lookup_slotTasks h (by decide)]
  constructor
  · intro h
    obtain ⟨v, htasks⟩ := slotTasks_eq F slots config
    exact (hkeep _ htasks).mp (h _ htasks)
  · intro h config' htasks
    exact (hkeep config' htasks).mpr h

def compactJson : ToJson := ⟨render compactLayout 0, fun v => written_render compactLayout v 0⟩

def logicalSlot : DeclaredSlot where
  slot := "logical".toList
  attributes := [("type".toList, .str "logical")]
  named := by decide
  keyed := by decide
  typed := List.cons_ne_nil _ _

/-- The declared slot is not among the permanent slots afterwards. -/
theorem declared_slot_missing : ¬ ∀ (F : ToJson) (slots : List DeclaredSlot) (config config'),
    slotTasks F slots config = some config' → Converged slots config' := by
  intro h
  obtain ⟨v, htasks⟩ := slotTasks_eq compactJson [logicalSlot] []
  have hconverged := h _ _ _ _ htasks "logical"
  rw [lookup_slotTasks htasks (by decide)] at hconverged
  exact hconverged

end PatroniDynamicConfig
