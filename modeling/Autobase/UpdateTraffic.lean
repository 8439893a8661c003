import Autobase.WordEdits

/-! # The traffic of a host

Three tags in patroni.yml take a host out of the traffic before it is updated, and bring it back
afterwards. Both are edits of the text of the file. -/
namespace UpdateTraffic

open LineEdits WordEdits

abbrev Text := List Char

inductive Tag
  | noloadbalance
  | nosync
  | nofailover
  deriving DecidableEq, Repr

/-- The items of the loop, in its order. -/
def Tag.all : List Tag := [.noloadbalance, .nosync, .nofailover]

def Tag.name : Tag → String
  | .noloadbalance => "noloadbalance"
  | .nosync => "nosync"
  | .nofailover => "nofailover"

def Tag.line (t : Tag) (value : Bool) : Text :=
  (t.name ++ ": " ++ if value then "true" else "false").toList

/-- One item of the loop over patroni.yml. -/
def replaceTag (value : Bool) (contents : Text) (t : Tag) : Text :=
  replace (literal (t.line !value)) (t.line value) contents

/-- `Edit patroni.yml | enable noloadbalance, nosync, nofailover` -/
def enable (contents : Text) : Text := Tag.all.foldl (replaceTag true) contents

/-- `Edit patroni.yml | disable noloadbalance, nosync, nofailover` -/
def disable (contents : Text) : Text := Tag.all.foldl (replaceTag false) contents

def word (i : Tag × Bool) : Text := i.1.line i.2

theorem apart_word : Apart word := by
  refine apart_of_check [(.noloadbalance, true), (.noloadbalance, false), (.nosync, true),
    (.nosync, false), (.nofailover, true), (.nofailover, false)] ?_ (by decide) (by decide)
  rintro ⟨t, v⟩
  cases t <;> cases v <;> simp

def set (value : Bool) (i : Tag × Bool) : Tag × Bool := (i.1, value)

variable {contents : Text} {ps : Pieces Char (Tag × Bool)} {value : Bool}

/-- The loop gives every tag the value, wherever the tag stands with the other one. -/
theorem loop_spell (hps : Exposed word ps) : Tag.all.foldl (replaceTag value) (spell word ps) =
    spell word (renamed (set value) ps) := by
  have hitem : ∀ (t : Tag) {qs : Pieces Char (Tag × Bool)}, Exposed word qs →
      replaceTag value (spell word qs) t =
        spell word (renamed (exchange (t, !value) (t, value)) qs) := fun t _ hqs =>
    apart_word.replace_spell (i := (t, !value)) (j := (t, value)) hqs
  have hexposed₁ := apart_word.exposed_renamed
    (f := exchange (.noloadbalance, !value) (.noloadbalance, value)) hps
  have hexposed₂ := apart_word.exposed_renamed
    (f := exchange (.nosync, !value) (.nosync, value)) hexposed₁
  rw [Tag.all, List.foldl_cons, List.foldl_cons, List.foldl_cons, List.foldl_nil, hitem _ hps,
    hitem _ hexposed₁, hitem _ hexposed₂, renamed_renamed, renamed_renamed]
  congr 2
  funext i
  rcases i with ⟨t, v⟩
  cases t <;> cases v <;> cases value <;> rfl

theorem enable_spell (hps : Exposed word ps) :
    enable (spell word ps) = spell word (renamed (set true) ps) := loop_spell hps

theorem disable_spell (hps : Exposed word ps) :
    disable (spell word ps) = spell word (renamed (set false) ps) := loop_spell hps

/-- What brings a host back undoes what took it out, up to the tags that were on before. -/
theorem disable_enable : disable (enable contents) = disable contents := by
  obtain ⟨ps, hps, rfl⟩ := apart_word.exists_pieces contents
  rw [enable_spell hps, disable_spell (apart_word.exposed_renamed hps), renamed_renamed,
    disable_spell hps]
  rfl

theorem not_mem_set (hps : Exposed word ps) (value : Bool) (t : Tag) :
    ¬ t.line (!value) <:+: spell word (renamed (set value) ps) := by
  intro h
  have hmem := (apart_word.mem_pieces_iff (i := (t, !value))
    (apart_word.exposed_renamed hps)).mpr h
  obtain ⟨p, -, hp⟩ := List.mem_map.mp hmem
  cases p with
  | inl c => cases hp
  | inr i =>
    have hvalue : value = !value := congrArg Prod.snd (Sum.inr.inj hp)
    cases value <;> cases hvalue

theorem disable_clears (t : Tag) : ¬ t.line true <:+: disable contents := by
  obtain ⟨ps, hps, rfl⟩ := apart_word.exists_pieces contents
  rw [disable_spell hps]
  exact not_mem_set hps false t

theorem disable_self (h : ∀ t : Tag, ¬ t.line true <:+: contents) :
    disable contents = contents := by
  obtain ⟨ps, hps, rfl⟩ := apart_word.exists_pieces contents
  have hself : renamed (set false) ps = ps := by
    refine renamed_eq_self.mpr ?_
    rintro ⟨t, v⟩ hmem
    cases v with
    | false => rfl
    | true => exact absurd ((apart_word.mem_pieces_iff hps).mp hmem) (h t)
  rw [disable_spell hps, hself]

/-- A tag stands in the file as off where it stood as on. -/
theorem infix_disable {t : Tag} (h : t.line true <:+: contents) :
    t.line false <:+: disable contents := by
  obtain ⟨ps, hps, rfl⟩ := apart_word.exists_pieces contents
  rw [disable_spell hps]
  have hmem : Sum.inr (t, true) ∈ ps := (apart_word.mem_pieces_iff (i := (t, true)) hps).mpr h
  exact (apart_word.mem_pieces_iff (i := (t, false)) (apart_word.exposed_renamed hps)).mp
    (List.mem_map.mpr ⟨_, hmem, rfl⟩)

/-- The file is after an update what it was before exactly when none of the tags was on. One that
was on is off. -/
theorem restored_iff :
    (disable (enable contents) = contents ↔ ∀ t : Tag, ¬ t.line true <:+: contents) ∧
      ∀ t : Tag, t.line true <:+: contents →
        t.line false <:+: disable (enable contents) ∧
          ¬ t.line true <:+: disable (enable contents) := by
  rw [disable_enable]
  refine ⟨⟨fun h t => ?_, disable_self⟩, fun t ht => ⟨infix_disable ht, disable_clears t⟩⟩
  rw [← h]
  exact disable_clears t

end UpdateTraffic
