import Autobase.ConsoleInventoryFile
import Autobase.JsonStrings

/-! # The inventory from the form to the server

The form writes the inventory as JSON and gives every code unit below 256 to base64 as one
byte. The server takes the decoded bytes for UTF-8. -/
namespace ConsoleInventoryUpload

open ConsolePostCluster ConsoleInventoryFile JsonText JsonAscii JsonRoundTrip JsonStrings Utf8Text

/-! ## The form -/

/-- The escapes of `JSON.stringify`; the characters of HTML and the line separators are not
among them. -/
def stringifyEscape (c : Char) : List Char :=
  if c ∈ ['<', '>', '&'] ∨ c.toNat = 0x2028 ∨ c.toNat = 0x2029 then [c] else compactEscape c

theorem readChar_stringifyEscape (c : Char) (rest : List Char) :
    readChar (stringifyEscape c ++ rest) = some (c, rest) := by
  rw [stringifyEscape]
  split
  · next h =>
    have hplain : c ≠ '"' ∧ c ≠ '\\' ∧ ¬ c.toNat < 32 := by
      rcases h with h | h | h
      · simp only [List.mem_cons, List.not_mem_nil, or_false] at h
        rcases h with rfl | rfl | rfl <;> decide
      · refine ⟨?_, ?_, by omega⟩
        · rintro rfl
          exact absurd h (by decide)
        · rintro rfl
          exact absurd h (by decide)
      · refine ⟨?_, ?_, by omega⟩
        · rintro rfl
          exact absurd h (by decide)
        · rintro rfl
          exact absurd h (by decide)
    rw [List.singleton_append, readChar_plain hplain.1 hplain.2.1 (by omega)]
  · exact readChar_compactEscape c rest

def stringifyLayout : Layout where
  gap _ := []
  afterColon := []
  escape := stringifyEscape
  gap_blank := compactLayout.gap_blank
  colon_blank := compactLayout.colon_blank
  escape_reads := readChar_stringifyEscape

def codeUnits (c : Char) : List ℕ :=
  if c.toNat < 0x10000 then [c.toNat]
  else [0xd800 + (c.toNat - 0x10000) / 0x400, 0xdc00 + (c.toNat - 0x10000) % 0x400]

/-- It throws on a code unit that does not fit a byte. -/
def btoa (text : List Char) : Option (List Char) :=
  let units := text.flatMap codeUnits
  if units.all fun u => decide (u < 256) then some (Base64Text.encode (units.map UInt8.ofNat))
  else none

inductive UiValue where
  | text (s : String)
  | object (v : Json)

def UiValue.raw : UiValue → List Char
  | .text s => s.toList
  | .object v => render stringifyLayout 0 v

def convertObjectValueToBase64Format (object : List (String × UiValue)) : Option (List String) :=
  object.mapM fun kv => (btoa kv.2.raw).map fun t => kv.1 ++ ("=" ++ String.ofList t)

/-- The envs of a request; the key is there when it is neither stored nor chosen. -/
def getLocalMachineEnvs (sshKey : Option String) (inventory : Json) : List (String × UiValue) :=
  (sshKey.toList.map fun key => ("SSH_PRIVATE_KEY_CONTENT", .text key)) ++
    [(inventoryJsonEnv, .object inventory)]

/-- The inventory arrives as it was sent. -/
def Transported (C : Circumstances) (v : Json) : Prop :=
  ∃ envs, convertObjectValueToBase64Format (getLocalMachineEnvs none v) = some envs ∧
    (readInventory C envs).map Prod.fst = some v

/-! ## Base64 of a text -/

theorem btoa_latin1 {text : List Char} (h : ∀ c ∈ text, c.toNat < 256) :
    btoa text = some (Base64Text.encode (text.map latin1)) := by
  have hflat : text.flatMap codeUnits = text.map Char.toNat := by
    induction text with
    | nil => rfl
    | cons c text ih =>
      have hc := h c List.mem_cons_self
      have hunit : codeUnits c = [c.toNat] := by rw [codeUnits, if_pos (by omega)]
      rw [List.flatMap_cons, hunit, ih fun d hd => h d (List.mem_cons_of_mem _ hd)]
      rfl
  have hall : (text.flatMap codeUnits).all (fun u => decide (u < 256)) = true := by
    rw [hflat, List.all_eq_true]
    intro u hu
    obtain ⟨c, hc, rfl⟩ := List.mem_map.mp hu
    simpa using h c hc
  rw [btoa, if_pos hall, hflat, List.map_map]
  rfl

theorem btoa_wide {text : List Char} (h : ¬ ∀ c ∈ text, c.toNat < 256) : btoa text = none := by
  have hsome : (text.flatMap codeUnits).all (fun u => decide (u < 256)) = false := by
    rw [Bool.eq_false_iff]
    intro hall
    apply h
    intro c hc
    have hc' : ∀ u ∈ codeUnits c, u < 256 := fun u hu => by
      simpa using List.all_eq_true.mp hall u (List.mem_flatMap.mpr ⟨c, hc, hu⟩)
    rw [codeUnits] at hc'
    split at hc'
    · exact hc' _ List.mem_cons_self
    · have hhigh := hc' _ List.mem_cons_self
      omega
  rw [btoa, hsome]
  simp

/-! ## Escapes and bytes -/

theorem hexChar_ascii : ∀ d : Fin 16, (hexChar d.val).toNat < 0x80 := by decide

theorem codeEscape_ascii (n : ℕ) : codeEscape n ≠ [] ∧ ∀ d ∈ codeEscape n, d.toNat < 0x80 := by
  have hdigit : ∀ k : ℕ, (hexChar (k % 16)).toNat < 0x80 := fun k =>
    hexChar_ascii ⟨k % 16, Nat.mod_lt k (by decide)⟩
  constructor
  · exact List.cons_ne_nil _ _
  · simp only [codeEscape, hex4, List.forall_mem_cons, hdigit, true_and]
    exact ⟨by decide, by decide, List.forall_mem_nil _⟩

theorem compactEscape_ascii {c : Char} (h : c.toNat < 0x80) :
    compactEscape c ≠ [] ∧ ∀ d ∈ compactEscape c, d.toNat < 0x80 := by
  have hpair : ∀ a b : Char, a.toNat < 0x80 → b.toNat < 0x80 →
      [a, b] ≠ [] ∧ ∀ d ∈ [a, b], d.toNat < 0x80 := by
    intro a b ha hb
    simp [ha, hb]
  simp only [compactEscape]
  split
  · exact hpair _ _ (by decide) (by decide)
  split
  · exact hpair _ _ (by decide) (by decide)
  split
  · exact hpair _ _ (by decide) (by decide)
  split
  · exact hpair _ _ (by decide) (by decide)
  split
  · exact hpair _ _ (by decide) (by decide)
  split
  · exact hpair _ _ (by decide) (by decide)
  split
  · exact hpair _ _ (by decide) (by decide)
  split
  · exact codeEscape_ascii _
  · simpa using h

theorem escape_ascii {c : Char} (h : c.toNat < 0x80) :
    stringifyEscape c ≠ [] ∧ ∀ d ∈ stringifyEscape c, d.toNat < 0x80 := by
  simp only [stringifyEscape]
  split
  · simpa using h
  · exact compactEscape_ascii h

theorem escape_high {c : Char} (h : 0x80 ≤ c.toNat) : stringifyEscape c = [c] := by
  have hne : ∀ d : Char, d.toNat < 0x80 → c ≠ d := by
    rintro d hd rfl
    omega
  rw [stringifyEscape]
  split
  · rfl
  · next hno =>
    rw [not_or, not_or] at hno
    obtain ⟨hhtml, hline, hpara⟩ := hno
    rw [compactEscape]
    rw [if_neg (hne _ (by decide)), if_neg (hne _ (by decide)), if_neg (hne _ (by decide)),
      if_neg (hne _ (by decide)), if_neg (hne _ (by decide)), if_neg (by omega),
      if_neg (by omega), if_neg]
    rintro (h | h | h | h)
    · omega
    · exact hhtml h
    · exact hline h
    · exact hpara h

theorem takeWhile_escaped {s : List Char} (h : ∀ c ∈ s, c.toNat < 256) :
    ((s.flatMap stringifyEscape).map latin1).takeWhile high = (s.map latin1).takeWhile high := by
  induction s with
  | nil => rfl
  | cons c s ih =>
    have hc := h c List.mem_cons_self
    by_cases hlow : c.toNat < 0x80
    · have hstop : high (latin1 c) = false := by
        rw [high_latin1 hc]
        simpa using hlow
      obtain ⟨hne, hascii⟩ := escape_ascii hlow
      obtain ⟨d, ds, hd⟩ := List.exists_cons_of_ne_nil hne
      have hdlow : d.toNat < 0x80 := hascii d (hd ▸ List.mem_cons_self)
      have hdstop : high (latin1 d) = false := by
        rw [high_latin1 (by omega)]
        simpa using hdlow
      simp [hd, hstop, hdstop]
    · have hgo : high (latin1 c) = true := by
        rw [high_latin1 hc]
        simpa using hlow
      rw [List.flatMap_cons, escape_high (by omega), List.singleton_append, List.map_cons,
        List.map_cons, List.takeWhile_cons_of_pos hgo, List.takeWhile_cons_of_pos hgo,
        ih fun d hd => h d (List.mem_cons_of_mem _ hd)]

/-- Reading the bytes of an escaped text is escaping what is read of its bytes. -/
theorem readFrom_escaped {k : ℕ} {s : List Char} (h : ∀ c ∈ s, c.toNat < 256)
    (hk : k ≤ ((s.map latin1).takeWhile high).length) :
    readFrom k ((s.flatMap stringifyEscape).map latin1) =
      (readFrom k (s.map latin1)).flatMap stringifyEscape := by
  induction s generalizing k with
  | nil => rfl
  | cons c s ih =>
    have hc := h c List.mem_cons_self
    have hs : ∀ d ∈ s, d.toNat < 256 := fun d hd => h d (List.mem_cons_of_mem _ hd)
    by_cases hlow : c.toNat < 0x80
    · have hstop : high (latin1 c) = false := by
        rw [high_latin1 hc]
        simpa using hlow
      obtain rfl : k = 0 := by simpa [hstop] using hk
      have hrest := ih (k := 0) hs (Nat.zero_le _)
      have hescaped := reread_ascii (escape_ascii hlow).2 (s.flatMap stringifyEscape)
      have hplain := reread_cons hlow s
      simp only [reread, readText] at hescaped hplain
      rw [List.flatMap_cons, hescaped, hplain, List.flatMap_cons, hrest]
    · have hgo : high (latin1 c) = true := by
        rw [high_latin1 hc]
        simpa using hlow
      rw [List.map_cons, List.takeWhile_cons_of_pos hgo, List.length_cons] at hk
      rw [List.flatMap_cons, escape_high (by omega), List.singleton_append, List.map_cons,
        List.map_cons]
      cases k with
      | succ k => exact ih hs (Nat.le_of_succ_le_succ hk)
      | zero =>
        have hsame : readRune (latin1 c) ((s.flatMap stringifyEscape).map latin1) =
            readRune (latin1 c) (s.map latin1) := by
          rw [← readRune_takeWhile, takeWhile_escaped hs, readRune_takeWhile]
        obtain ⟨htaken, hrune, -⟩ := readRune_high hgo (s.map latin1)
        simp only [readFrom, hsame, List.flatMap_cons, escape_high hrune, ih hs htaken,
          List.singleton_append]

/-! ## The whole text -/

def rereadString (s : String) : String := String.ofList (reread s.toList)

theorem reread_quoted {s : String} (h : ∀ c ∈ s.toList, c.toNat < 256) (y : List Char) :
    reread (quoted stringifyLayout s ++ y) =
      quoted stringifyLayout (rereadString s) ++ reread y := by
  have hquote : ('"' : Char).toNat < 0x80 := by decide
  have hinner : reread (s.toList.flatMap stringifyEscape) =
      (reread s.toList).flatMap stringifyEscape := readFrom_escaped h (Nat.zero_le _)
  calc reread (quoted stringifyLayout s ++ y)
      = reread ('"' :: (s.toList.flatMap stringifyEscape ++ '"' :: y)) := by
        simp [quoted, stringifyLayout]
    _ = '"' :: (reread (s.toList.flatMap stringifyEscape) ++ '"' :: reread y) := by
        rw [reread_cons hquote, reread_append hquote, reread_cons hquote]
    _ = quoted stringifyLayout (rereadString s) ++ reread y := by
        rw [hinner]
        simp [quoted, stringifyLayout, rereadString]

theorem rereading : TextCongruence fun x x' => ∀ y, reread (x ++ y) = x' ++ reread y where
  append hx hy z := by
    rw [List.append_assoc, hx, hy, List.append_assoc]
  ascii h y := reread_ascii h y

/-- Text and strings below 256. -/
theorem render_latin1_iff (v : Json) : (∀ c ∈ render stringifyLayout 0 v, c.toNat < 256) ↔
    ∀ s ∈ texts v, ∀ c ∈ s.toList, c.toNat < 256 := by
  rw [forall_render_iff stringifyLayout (P := fun c => c.toNat < 256) (fun c hc => by omega)]
  refine forall₂_congr fun s _ => ?_
  constructor
  · intro h c hc
    by_cases hlow : c.toNat < 0x80
    · omega
    · apply h c
      refine List.mem_cons_of_mem _ (List.mem_append_left _ (List.mem_flatMap.mpr ⟨c, hc, ?_⟩))
      rw [show stringifyLayout.escape c = [c] from escape_high (by omega)]
      exact List.mem_singleton.mpr rfl
  · intro h c hc
    rcases List.mem_cons.mp hc with rfl | hc
    · decide
    rcases List.mem_append.mp hc with hc | hc
    · obtain ⟨d, hd, hcd⟩ := List.mem_flatMap.mp hc
      by_cases hlow : d.toNat < 0x80
      · have hsmall := (escape_ascii hlow).2 c hcd
        omega
      · rw [show stringifyLayout.escape d = [d] from escape_high (by omega)] at hcd
        rw [List.mem_singleton.mp hcd]
        exact h d hd
    · rw [List.mem_singleton.mp hc]
      decide

/-- The bytes of a text are read as the text of the value with every string read again. -/
theorem parse_reread {v : Json} (h : ∀ s ∈ texts v, ∀ c ∈ s.toList, c.toNat < 256) :
    parse (reread (render stringifyLayout 0 v)) = some (mapText rereadString v) := by
  have hrelated := related_render (L := stringifyLayout) (f := rereadString) rereading v 0
    fun s hs y => reread_quoted (h s hs) y
  have hwhole := hrelated []
  rw [List.append_nil] at hwhole
  rw [hwhole]
  have hparse := (written_render stringifyLayout (mapText rereadString v) 0).parse
    (List.forall_mem_nil _)
  exact hparse

/-! ## The request -/

theorem getValFromVars_head {key : String} (hkey : '=' ∉ key.toList) (v : String)
    (vars : List String) : getValFromVars key ((key ++ ("=" ++ v)) :: vars) = v := by
  have hprefix : ((key.toList.map toLowerRune) ++ ['=']).isPrefixOf
      ((key ++ ("=" ++ v)).toList.map toLowerRune) = true := by
    rw [List.isPrefixOf_iff_prefix, String.toList_append, String.toList_append, List.map_append,
      List.map_append]
    refine ⟨v.toList.map toLowerRune, ?_⟩
    rw [List.append_assoc]
    rfl
  have hsplit : splitAssignment (key ++ ("=" ++ v)).toList = some (key.toList, v.toList) :=
    splitAssignment_var key hkey v
  simp only [getValFromVars, hprefix, if_true, hsplit, String.ofList_toList]

theorem convert_inventory (v : Json) :
    convertObjectValueToBase64Format (getLocalMachineEnvs none v) =
      (btoa (render stringifyLayout 0 v)).map fun t =>
        [inventoryJsonEnv ++ ("=" ++ String.ofList t)] := by
  rw [convertObjectValueToBase64Format, getLocalMachineEnvs, Option.toList_none, List.map_nil,
    List.nil_append, List.mapM_cons, List.mapM_nil]
  cases h : btoa (render stringifyLayout 0 v) <;> simp [UiValue.raw, h]

theorem render_ne_nil (L : Layout) (v : Json) : render L 0 v ≠ [] := by
  intro h
  have hparse := parse_render L v
  rw [h] at hparse
  cases hparse

theorem readInventory_encoded {C : Circumstances} (hC : Standard C) {v : Json}
    (h : ∀ s ∈ texts v, ∀ c ∈ s.toList, c.toNat < 256) :
    (readInventory C [inventoryJsonEnv ++ ("=" ++ String.ofList
        (Base64Text.encode ((render stringifyLayout 0 v).map latin1)))]).map Prod.fst =
      (some (mapText rereadString v)).filter fun w => (unmarshalInventory w).isSome := by
  have hne : Base64Text.encode ((render stringifyLayout 0 v).map latin1) ≠ [] :=
    Base64Text.encode_ne_nil (by simpa using render_ne_nil stringifyLayout v)
  rw [readInventory_handlerReads hC, getValFromVars_head (by decide), String.toList_ofList,
    handlerReads, if_neg hne, Base64Text.decode_encode, Option.map_some, Option.getD_some,
    inventoryIn]
  exact congrArg _ (parse_reread h)

/-- Texts that `btoa` takes arrive as the bytes of Latin-1 read as UTF-8. -/
theorem transported_latin1_iff {C : Circumstances} (hC : Standard C) {v : Json}
    (hv : (unmarshalInventory v).isSome)
    (hlatin : ∀ c ∈ render stringifyLayout 0 v, c.toNat < 256) :
    Transported C v ↔ mapText rereadString v = v := by
  rw [Transported, convert_inventory, btoa_latin1 hlatin]
  simp only [Option.map_some, Option.some.injEq, exists_eq_left']
  rw [readInventory_encoded hC ((render_latin1_iff v).mp hlatin), Option.filter_eq_some_iff]
  constructor
  · rintro ⟨he, -⟩
    exact Option.some.inj he
  · intro he
    rw [he]
    exact ⟨rfl, hv⟩

/-- An inventory arrives as it was sent exactly when its keys and strings are ASCII. -/
theorem transported_iff {C : Circumstances} (hC : Standard C) {v : Json}
    (hv : (unmarshalInventory v).isSome) :
    Transported C v ↔ ∀ s ∈ texts v, ∀ c ∈ s.toList, c.toNat < 0x80 := by
  by_cases hlatin : ∀ c ∈ render stringifyLayout 0 v, c.toNat < 256
  · have htexts := (render_latin1_iff v).mp hlatin
    rw [transported_latin1_iff hC hv hlatin, mapText_eq_self]
    refine forall₂_congr fun s hs => ?_
    rw [← reread_eq_self (htexts s hs), rereadString, ← String.toList_inj, String.toList_ofList]
  · rw [Transported, convert_inventory, btoa_wide hlatin]
    refine iff_of_false (by simp) fun hascii => hlatin ((render_latin1_iff v).mpr ?_)
    intro s hs c hc
    exact Nat.lt_trans (hascii s hs c hc) (by decide)

def hostedAt (location : String) : Json :=
  .obj [("all", .obj [("children", .obj [("master", .obj [("hosts",
    .obj [("10.0.0.1", .obj [("server_location", .str location)])])])])])]

theorem ascii_location_transported :
    Transported standard (hostedAt "Frankfurt") ↔
      ∀ s ∈ texts (hostedAt "Frankfurt"), ∀ c ∈ s.toList, c.toNat < 0x80 :=
  transported_iff (fun _ => rfl) (by decide +kernel)

/-- The umlaut is one byte for `btoa`, and no text in UTF-8. -/
theorem umlaut_not_transported : ¬ ∀ (C : Circumstances) (v : Json), Standard C →
    (unmarshalInventory v).isSome → Transported C v := by
  intro h
  have hhosts : (unmarshalInventory (hostedAt "München")).isSome := by decide +kernel
  have hall : (render stringifyLayout 0 (hostedAt "München")).all
      (fun c => Nat.blt c.toNat 256) = true := by
    decide +kernel
  have hlatin : ∀ c ∈ render stringifyLayout 0 (hostedAt "München"), c.toNat < 256 :=
    fun c hc => Nat.blt_eq.mp (List.all_eq_true.mp hall c hc)
  have hread := (transported_latin1_iff (C := standard) (fun _ => rfl) hhosts hlatin).mp
    (h standard (hostedAt "München") (fun _ => rfl) hhosts)
  have htexts := congrArg texts hread
  revert htexts
  decide +kernel

end ConsoleInventoryUpload
