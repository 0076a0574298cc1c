import Protobuf.Declaration.Field

/-! What the items of a field declare.  An item has one meaning, of one of eight roles, and no role
is filled twice; so the collected items are a record of the meanings, one in each role that some
item has.
-/

namespace Protobuf.Declaration

theorem bind_eq_ok_iff {α β : Type} {x : Except DeclarationError α}
    {f : α → Except DeclarationError β} {b : β}
    : x >>= f = .ok b ↔ ∃ a, x = .ok a ∧ f a = .ok b := by
  cases x with
  | error e => exact ⟨nofun, fun ⟨_, h, _⟩ => nomatch h⟩
  | ok a => exact ⟨fun h => ⟨a, rfl, h⟩, fun ⟨_, same, h⟩ => Except.ok.inj same ▸ h⟩

-----------------------------------------------------------------------------------------
-- Meanings
-----------------------------------------------------------------------------------------

/-- An attribute of a field; all types are one attribute, and so are all labels. -/
inductive Role where
  | tag
  | tags
  | type
  | label
  | map
  | packed
  | name
  | jsonName
deriving DecidableEq, Repr

/-- What an item declares: an attribute with its value. -/
inductive Meaning where
  | tag (n : Nat)
  | tags (ns : List Nat)
  | type (type : FieldType)
  | label (label : Label)
  | map (text : String)
  | packed (b : Bool)
  | name (text : String)
  | jsonName (text : String)
deriving DecidableEq, Repr

def Meaning.role : Meaning → Role
  | .tag _ => .tag
  | .tags _ => .tags
  | .type _ => .type
  | .label _ => .label
  | .map _ => .map
  | .packed _ => .packed
  | .name _ => .name
  | .jsonName _ => .jsonName

/-- The outcome of looking for a meaning: it is found, there is none, or the item is malformed. -/
abbrev Reading := Except DeclarationError (Option Meaning)

namespace Reading

/-- A value as the meaning that it stands for. -/
def as {α : Type} (meaning : α → Meaning) (result : Except DeclarationError (Option α)) : Reading :=
  result.map (Option.map meaning)

/-- The first reading unless it finds no meaning. -/
def or (first next : Reading) : Reading :=
  match first with
  | .ok none => next
  | found => found

/-- A meaning of another attribute is found behind. -/
theorem behind {α : Type} {meaning : α → Meaning} {result : Except DeclarationError (Option α)}
    {next : Reading} {m : Meaning} (found : (as meaning result).or next = .ok (some m))
    (other : ∀ x, m ≠ meaning x)
    : next = .ok (some m) := by
  match result, found with
  | .ok none, found => exact found
  | .ok (some x), found => exact absurd (Option.some.inj (Except.ok.inj found)).symm (other x)

end Reading

/-- What an item of a field means, by the first attribute that knows it. -/
def Item.reading (item : Item) : Reading :=
  .or (.as .tag (tagItem item)) <|
  .or (.as .tags (tagsItem item)) <|
  .or (.as .type (FieldType.ofItem item)) <|
  .or (.as .label (.ok (Label.ofItem item))) <|
  .or (.as .map (textItem "map" item)) <|
  .or (.as .packed (boolItem "packed" item)) <|
  .or (.as .name (textItem "name" item)) <|
  .or (.as .jsonName (textItem "json_name" item)) <|
  .ok none

/-- The meaning of an item, if it is well-formed and has one. -/
def Item.meaning? (item : Item) : Option Meaning :=
  match item.reading with
  | .ok meaning => meaning
  | .error _ => none

/-- The item is a literal without a key. -/
def Item.isLiteral : Item → Bool
  | .literal _ => true
  | _ => false

/-- The item has a key that no attribute knows. -/
def Item.isStranger (item : Item) : Bool :=
  !item.isLiteral && item.meaning?.isNone

theorem reading_literal (value : Literal)
    : (Item.literal value).reading = .ok none :=
  rfl

theorem reading_of_meaning {item : Item} {m : Meaning} (h : item.meaning? = some m)
    : item.reading = .ok (some m) := by
  unfold Item.meaning? at h
  split at h
  · rename_i meaning read
    rw [read, h]
  · cases h

/-- Only an item with the key of the JSON name gives one: the other attributes do not know it. -/
theorem key_of_jsonName {item : Item} {text : String} (h : item.meaning? = some (.jsonName text))
    : item.key? = some "json_name" := by
  have found := reading_of_meaning h
  unfold Item.reading at found
  iterate 7 replace found := Reading.behind found nofun
  by_cases own : item.key? = some "json_name"
  · exact own
  · simp [textItem, own, Reading.as, Reading.or, Except.map] at found

-----------------------------------------------------------------------------------------
-- Collecting
-----------------------------------------------------------------------------------------

namespace Collected

/-- The meaning that fills a role. -/
def at? (c : Collected) : Role → Option Meaning
  | .tag => c.tag.map .tag
  | .tags => c.tags.map .tags
  | .type => c.type.map .type
  | .label => c.label.map .label
  | .map => c.map.map .map
  | .packed => c.packed.map .packed
  | .name => c.name.map .name
  | .jsonName => c.jsonName.map .jsonName

/-- Fills the role of a meaning. -/
def set (c : Collected) : Meaning → Collected
  | .tag n => { c with tag := some n }
  | .tags ns => { c with tags := some ns }
  | .type type => { c with type := some type }
  | .label label => { c with label := some label }
  | .map text => { c with map := some text }
  | .packed b => { c with packed := some b }
  | .name text => { c with name := some text }
  | .jsonName text => { c with jsonName := some text }

/-- Fills the role of a meaning unless it is filled. -/
def put (c : Collected) : Meaning → Except DeclarationError Collected
  | .tag x => (setOnce "tag" toString c.tag x).map fun tag => { c with tag }
  | .tags x => (setOnce "tags" listText c.tags x).map fun tags => { c with tags }
  | .type x => (setOnce "type" FieldType.text c.type x).map fun type => { c with type }
  | .label x => (setOnce "label" Label.text c.label x).map fun label => { c with label }
  | .map x => (setOnce "map" Text.quoted c.map x).map fun map => { c with map }
  | .packed x => (setOnce "packed" boolText c.packed x).map fun packed => { c with packed }
  | .name x => (setOnce "name" Text.quoted c.name x).map fun name => { c with name }
  | .jsonName x => (setOnce "json_name" Text.quoted c.jsonName x).map fun jsonName =>
      { c with jsonName }

variable {c c' : Collected} {m : Meaning}

/-- What is collected is known by the roles and the number of strange items. -/
theorem ext_at (same : ∀ role, c.at? role = c'.at? role) (strangers : c.strangers = c'.strangers)
    : c = c' := by
  have tag : c.tag = c'.tag := Option.map_injective (fun _ _ => Meaning.tag.inj) (same .tag)
  have tags : c.tags = c'.tags := Option.map_injective (fun _ _ => Meaning.tags.inj) (same .tags)
  have type : c.type = c'.type := Option.map_injective (fun _ _ => Meaning.type.inj) (same .type)
  have label : c.label = c'.label :=
    Option.map_injective (fun _ _ => Meaning.label.inj) (same .label)
  have map : c.map = c'.map := Option.map_injective (fun _ _ => Meaning.map.inj) (same .map)
  have packed : c.packed = c'.packed :=
    Option.map_injective (fun _ _ => Meaning.packed.inj) (same .packed)
  have name : c.name = c'.name := Option.map_injective (fun _ _ => Meaning.name.inj) (same .name)
  have jsonName : c.jsonName = c'.jsonName :=
    Option.map_injective (fun _ _ => Meaning.jsonName.inj) (same .jsonName)
  cases c
  cases c'
  simp_all only

@[simp]
theorem strangers_set (c : Collected) (m : Meaning)
    : (c.set m).strangers = c.strangers := by
  cases m <;> rfl

theorem at?_set (c : Collected) (m : Meaning) (role : Role)
    : (c.set m).at? role = if role = m.role then some m else c.at? role := by
  cases m <;> cases role <;> rfl

theorem setOnce_map_eq_ok_iff {α : Type} {kind : String} {shown : α → String}
    {current : Option α} {x : α} {set : Option α → Collected}
    : (setOnce kind shown current x).map set = .ok c' ↔ current = none ∧ set (some x) = c' := by
  cases current with
  | none => exact ⟨fun h => ⟨rfl, Except.ok.inj h⟩, fun ⟨_, h⟩ => congrArg Except.ok h⟩
  | some first => exact ⟨nofun, nofun⟩

/-- A role is filled once. -/
theorem put_eq_ok_iff
    : c.put m = .ok c' ↔ c.at? m.role = none ∧ c.set m = c' := by
  cases m <;> exact setOnce_map_eq_ok_iff.trans (and_congr_left' Option.map_eq_none_iff.symm)

/-- Takes what an item means, or counts it if it means nothing. -/
def take (c : Collected) : Reading → Except DeclarationError Collected
  | .error e => .error e
  | .ok none => c.addStranger
  | .ok (some m) => c.put m

theorem orElse_put {α : Type} (meaning : α → Meaning) (result : Except DeclarationError (Option α))
    (next : Reading)
    : orElse result (fun x => c.put (meaning x)) (c.take next)
        = c.take ((Reading.as meaning result).or next) := by
  match result with
  | .error _ => rfl
  | .ok none => rfl
  | .ok (some _) => rfl

/-- An item with a key is taken as what it means. -/
theorem addToField_eq {item : Item} (keyed : item.isLiteral = false)
    : c.addToField item = c.take item.reading := by
  unfold Item.reading
  simp only [← orElse_put]
  cases item with
  | literal value => cases keyed
  | word key | assign key value | call key values => rfl

end Collected

-----------------------------------------------------------------------------------------
-- Whole lists
-----------------------------------------------------------------------------------------

/-- The item is not malformed. -/
def Item.IsClear (item : Item) : Prop :=
  ∃ meaning, item.reading = .ok meaning

theorem Item.isClear_literal (value : Literal)
    : (Item.literal value).IsClear :=
  ⟨_, reading_literal value⟩

/-- The meanings of items, in order. -/
def meanings (items : List Item) : List Meaning :=
  items.filterMap Item.meaning?

namespace Collected

variable {c c' : Collected} {m : Meaning} {ms : List Meaning} {item : Item} {items : List Item}

/-- The meanings have roles that are not filled, and no two have the same. -/
structure Fresh (c : Collected) (ms : List Meaning) : Prop where
  distinct : (ms.map Meaning.role).Nodup
  unfilled : ∀ m ∈ ms, c.at? m.role = none

theorem fresh_nil
    : c.Fresh [] :=
  ⟨List.nodup_nil, nofun⟩

/-- A role that is filled is not free behind. -/
theorem fresh_cons
    : c.Fresh (m :: ms) ↔ c.at? m.role = none ∧ (c.set m).Fresh ms := by
  constructor
  · rintro ⟨distinct, unfilled⟩
    obtain ⟨first, others⟩ := List.nodup_cons.mp distinct
    refine ⟨unfilled m List.mem_cons_self, others, fun n listed => ?_⟩
    have apart : n.role ≠ m.role := fun same => first (same ▸ List.mem_map_of_mem listed)
    rw [at?_set, if_neg apart]
    exact unfilled n (List.mem_cons_of_mem m listed)
  · rintro ⟨own, distinct, unfilled⟩
    have apart : ∀ n ∈ ms, n.role ≠ m.role ∧ c.at? n.role = none := by
      intro n listed
      have free := unfilled n listed
      rw [at?_set] at free
      split at free
      · cases free
      · exact ⟨‹_›, free⟩
    refine ⟨List.nodup_cons.mpr ⟨fun listed => ?_, distinct⟩, List.forall_mem_cons.mpr ⟨own, ?_⟩⟩
    · obtain ⟨n, listed, same⟩ := List.mem_map.mp listed
      exact (apart n listed).1 same
    · exact fun n listed => (apart n listed).2

/-- What is collected with an item more, regardless of the roles that are filled. -/
def withItem (c : Collected) (item : Item) : Collected :=
  match item.meaning? with
  | some m => c.set m
  | none => if item.isLiteral then c else { c with strangers := c.strangers + 1 }

/-- An item is taken if it is not malformed and its role is free. -/
theorem addToField_eq_ok_iff
    : c.addToField item = .ok c'
        ↔ item.IsClear ∧ (∀ m, item.meaning? = some m → c.at? m.role = none)
          ∧ c.withItem item = c' := by
  cases keyed : item.isLiteral with
  | true =>
      cases item with
      | literal value =>
          have silent : (Item.literal value).meaning? = none := rfl
          have taken : c.addToField (.literal value) = .ok c := rfl
          rw [taken, withItem, silent]
          exact ⟨fun h => ⟨Item.isClear_literal value, nofun, Except.ok.inj h⟩,
            fun ⟨_, _, h⟩ => congrArg Except.ok h⟩
      | word key | assign key value | call key values => cases keyed
  | false =>
      rw [addToField_eq keyed, Item.IsClear, Item.meaning?, withItem, Item.meaning?, keyed]
      match item.reading with
      | .error e => exact ⟨nofun, fun ⟨⟨meaning, h⟩, _⟩ => by cases h⟩
      | .ok none =>
          exact ⟨fun h => ⟨⟨none, rfl⟩, nofun, Except.ok.inj h⟩,
            fun ⟨_, _, h⟩ => congrArg Except.ok h⟩
      | .ok (some m) =>
          refine put_eq_ok_iff.trans
            ⟨fun ⟨free, h⟩ => ⟨⟨some m, rfl⟩, ?_, h⟩, fun ⟨_, free, h⟩ => ⟨free m rfl, h⟩⟩
          rintro m ⟨⟩
          exact free

theorem at?_withItem (meant : item.meaning? = none) (role : Role)
    : (c.withItem item).at? role = c.at? role := by
  rw [withItem, meant]
  cases item.isLiteral
  · cases role <;> rfl
  · rfl

theorem fresh_meanings_cons
    : c.Fresh (meanings (item :: items))
        ↔ (∀ m, item.meaning? = some m → c.at? m.role = none)
          ∧ (c.withItem item).Fresh (meanings items) := by
  cases meant : item.meaning? with
  | none =>
      have same := at?_withItem (c := c) meant
      rw [meanings, List.filterMap_cons_none meant]
      constructor
      · rintro ⟨distinct, unfilled⟩
        exact ⟨nofun, distinct, fun n listed => (same n.role).trans (unfilled n listed)⟩
      · rintro ⟨-, distinct, unfilled⟩
        exact ⟨distinct, fun n listed => (same n.role).symm.trans (unfilled n listed)⟩
  | some m =>
      rw [meanings, List.filterMap_cons_some meant, fresh_cons, withItem, meant]
      refine and_congr_left' ⟨?_, fun free => free m rfl⟩
      rintro free m ⟨⟩
      exact free

/-- Items are collected if none is malformed and no role is filled twice, by induction on them. -/
theorem foldlM_addToField_eq_ok_iff
    : items.foldlM addToField c = .ok c'
        ↔ (∀ item ∈ items, item.IsClear) ∧ c.Fresh (meanings items)
          ∧ items.foldl withItem c = c' := by
  induction items generalizing c with
  | nil =>
      exact ⟨fun h => ⟨nofun, fresh_nil, Except.ok.inj h⟩, fun ⟨_, _, h⟩ => congrArg Except.ok h⟩
  | cons item items ih =>
      simp only [List.foldlM_cons, bind_eq_ok_iff, addToField_eq_ok_iff, ih, List.forall_mem_cons,
        fresh_meanings_cons, List.foldl_cons]
      constructor
      · rintro ⟨_, ⟨clear, free, rfl⟩, others, fresh, same⟩
        exact ⟨⟨clear, others⟩, ⟨free, fresh⟩, same⟩
      · rintro ⟨⟨clear, others⟩, ⟨free, fresh⟩, same⟩
        exact ⟨_, ⟨clear, free, rfl⟩, others, fresh, same⟩

/-- A role is filled by the meaning that has it, by induction on the items. -/
theorem at?_foldl_withItem (fresh : c.Fresh (meanings items)) (role : Role)
    : (items.foldl withItem c).at? role
        = (c.at? role).or ((meanings items).find? fun m => m.role = role) := by
  induction items generalizing c with
  | nil => exact (Option.or_none).symm
  | cons item items ih =>
      obtain ⟨free, others⟩ := fresh_meanings_cons.mp fresh
      rw [List.foldl_cons, ih others]
      cases meant : item.meaning? with
      | none =>
          rw [meanings, meanings, List.filterMap_cons_none meant, at?_withItem meant]
      | some m =>
          rw [meanings, meanings, List.filterMap_cons_some meant, withItem, meant, at?_set,
            List.find?_cons]
          by_cases same : role = m.role
          · have own := free m meant
            rw [← same] at own
            rw [if_pos same, own, same]
            simp
          · have other : decide (m.role = role) = false := decide_eq_false (Ne.symm same)
            rw [if_neg same, other]

/-- The strange items are counted, by induction on the items. -/
theorem strangers_foldl_withItem
    : (items.foldl withItem c).strangers = c.strangers + items.countP Item.isStranger := by
  induction items generalizing c with
  | nil => rfl
  | cons item items ih =>
      rw [List.foldl_cons, ih, List.countP_cons, withItem, Item.isStranger]
      cases item.meaning? with
      | some m => simp
      | none =>
          cases item.isLiteral
          · simp only [Bool.false_eq_true, if_false, Bool.not_false, Option.isNone_none,
              Bool.and_self, if_true]
            omega
          · rfl

end Collected

end Protobuf.Declaration
