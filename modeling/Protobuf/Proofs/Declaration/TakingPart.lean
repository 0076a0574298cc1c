import Mathlib.Data.List.Nodup
import Protobuf.Proofs.Declaration.Meaning

/-! Which items of an accepted field take part in its descriptor.  What has a key is known, fills a
role of its own and shows in the descriptor, but for two attributes that some kinds of fields do not
look at: the list of numbers outside a oneof, and the type where the kind has none.  These, and
literals without a key, are passed over in silence, so that the field is described as if they were
not there.
-/

namespace Protobuf.Declaration

-----------------------------------------------------------------------------------------
-- Descriptors
-----------------------------------------------------------------------------------------

namespace Collected

/-- The descriptor of a field with collected items. -/
def describe (c : Collected) (identifier : String) : Except DeclarationError Field := do
  checkStrangers c.strangers
  let kind ← c.kind
  c.checkPacked kind
  let tags ← c.fieldTags kind
  let name := c.name.getD (String.ofList (plainIdentifier identifier.toList))
  return { kind, tags, name, jsonName := c.jsonName.getD (Text.jsonName name) }

theorem ofItems_eq (identifier : String) (items : List Item)
    : Field.ofItems identifier items = items.foldlM addToField {}
      >>= fun c => c.describe identifier :=
  rfl

/-- The items give a field of the kind. -/
def Gives (c : Collected) : FieldKind → Prop
  | .single type => c.label = none ∧ c.map = none ∧ c.type = some type
  | .optional type => c.label = some .optional ∧ c.map = none ∧ c.type = some type
  | .repeated type packed =>
      c.label = some .repeated ∧ c.map = none ∧ c.type = some type
      ∧ c.packed.getD type.isNumeric = packed ∧ (packed → type.isNumeric)
  | .map key value =>
      c.label = none ∧ ∃ text, c.map = some text ∧ mapKind text = .ok (.map key value)
  | .oneof => c.label = some .oneof ∧ c.map = none
  | .unknown => c.label = some .unknown ∧ c.map = none

/-- The items give the numbers to a field of the kind. -/
def Numbers (c : Collected) (tags : List Nat) : FieldKind → Prop
  | .unknown => c.tag = none ∧ c.tags = none ∧ tags = []
  | .oneof => c.tag = none ∧ c.tags = some tags
  | .single _ | .optional _ | .repeated _ _ | .map _ _ => ∃ tag, c.tag = some tag ∧ tags = [tag]

variable {c : Collected} {kind : FieldKind} {tags : List Nat} {t : FieldType}

theorem mapKind_eq_map {text : String} (h : mapKind text = .ok kind)
    : ∃ key value, kind = .map key value := by
  unfold mapKind at h
  dsimp only at h
  split at h
  · cases h
  · obtain ⟨key, -, h⟩ := bind_eq_ok_iff.mp h
    obtain ⟨value, -, h⟩ := bind_eq_ok_iff.mp h
    split at h
    · exact ⟨key, value, (Except.ok.inj h).symm⟩
    · cases h

theorem typedKind_single (type : c.type = some t)
    : c.typedKind none = .ok kind ↔ kind = .single t := by
  rw [typedKind, type]
  exact ⟨fun h => (Except.ok.inj h).symm, fun h => congrArg Except.ok h.symm⟩

theorem typedKind_optional (type : c.type = some t)
    : c.typedKind (some .optional) = .ok kind ↔ kind = .optional t := by
  rw [typedKind, type]
  exact ⟨fun h => (Except.ok.inj h).symm, fun h => congrArg Except.ok h.symm⟩

/-- Only numbers are packed. -/
theorem typedKind_repeated (type : c.type = some t)
    : c.typedKind (some .repeated) = .ok kind
        ↔ (c.packed.getD t.isNumeric → t.isNumeric)
          ∧ kind = .repeated t (c.packed.getD t.isNumeric) := by
  rw [typedKind, type]
  dsimp only
  cases c.packed.getD t.isNumeric <;> cases t.isNumeric <;> simp [eq_comm]

/-- The kind is what the label, the map and the type give, and no other combination has one. -/
theorem kind_eq_ok_iff
    : c.kind = .ok kind ↔ c.Gives kind := by
  constructor
  · intro h
    unfold Collected.kind at h
    split at h
    · cases h
      exact ⟨‹_›, ‹_›⟩
    · cases h
      exact ⟨‹_›, ‹_›⟩
    · obtain ⟨key, value, rfl⟩ := mapKind_eq_map h
      exact ⟨‹_›, _, ‹_›, h⟩
    · cases h
    · rename_i noMap notUnknown notOneof
      cases type : c.type with
      | none =>
          rw [typedKind, type] at h
          cases h
      | some t =>
          cases label : c.label with
          | none =>
              rw [label, typedKind_single type] at h
              subst h
              exact ⟨label, noMap, type⟩
          | some word =>
              cases word with
              | optional =>
                  rw [label, typedKind_optional type] at h
                  subst h
                  exact ⟨label, noMap, type⟩
              | repeated =>
                  rw [label, typedKind_repeated type] at h
                  obtain ⟨numeric, rfl⟩ := h
                  exact ⟨label, noMap, type, rfl, numeric⟩
              | oneof => exact absurd label notOneof
              | unknown => exact absurd label notUnknown
  · intro given
    unfold Collected.kind
    cases kind with
    | single t =>
        obtain ⟨label, map, type⟩ := given
        rw [label, map]
        exact (typedKind_single type).mpr rfl
    | optional t =>
        obtain ⟨label, map, type⟩ := given
        rw [label, map]
        exact (typedKind_optional type).mpr rfl
    | repeated t packed =>
        obtain ⟨label, map, type, rfl, numeric⟩ := given
        rw [label, map]
        exact (typedKind_repeated type).mpr ⟨numeric, rfl⟩
    | map key value =>
        obtain ⟨label, text, map, typed⟩ := given
        rw [label, map]
        exact typed
    | oneof =>
        obtain ⟨label, map⟩ := given
        rw [label, map]
    | unknown =>
        obtain ⟨label, map⟩ := given
        rw [label, map]

theorem checkPacked_eq_ok_iff
    : c.checkPacked kind = .ok ()
      ↔ c.packed.isSome → ∃ type packed, kind = .repeated type packed := by
  unfold checkPacked
  cases kind <;> cases c.packed <;> simp

theorem fieldTags_eq_ok_iff
    : c.fieldTags kind = .ok tags ↔ c.Numbers tags kind := by
  unfold fieldTags Numbers
  cases kind <;> cases c.tag <;> cases c.tags <;> simp [eq_comm]

/-- A field is described by collected items if they give its kind, its numbers and its names. -/
structure Describes (c : Collected) (identifier : String) (field : Field) : Prop where
  known : c.strangers = 0
  kind : c.Gives field.kind
  packed : c.packed.isSome → ∃ type packed, field.kind = .repeated type packed
  numbers : c.Numbers field.tags field.kind
  name : c.name.getD (String.ofList (plainIdentifier identifier.toList)) = field.name
  jsonName : c.jsonName.getD (Text.jsonName field.name) = field.jsonName

theorem checkStrangers_eq_ok_iff {strangers : Nat}
    : checkStrangers strangers = .ok () ↔ strangers = 0 := by
  unfold checkStrangers
  split
  · exact ⟨fun _ => rfl, fun _ => rfl⟩
  · exact ⟨nofun, nofun⟩
  · rename_i none _
    exact ⟨nofun, fun h => absurd h none⟩

theorem describe_eq_ok_iff {identifier : String} {field : Field}
    : c.describe identifier = .ok field ↔ c.Describes identifier field := by
  unfold describe
  simp only [bind_eq_ok_iff, kind_eq_ok_iff, fieldTags_eq_ok_iff]
  constructor
  · rintro ⟨⟨⟩, known, kind, given, ⟨⟩, packed, tags, numbers, described⟩
    cases described
    exact ⟨checkStrangers_eq_ok_iff.mp known, given, checkPacked_eq_ok_iff.mp packed,
      numbers, rfl, rfl⟩
  · rintro ⟨known, given, packed, numbers, name, jsonName⟩
    refine ⟨(), checkStrangers_eq_ok_iff.mpr known, field.kind, given, (),
      checkPacked_eq_ok_iff.mpr packed, field.tags, numbers, ?_⟩
    rw [name, jsonName]
    rfl

end Collected

-----------------------------------------------------------------------------------------
-- Taking part
-----------------------------------------------------------------------------------------

/-- A field of the kind does not look at the attribute, nor refuses it. -/
def Role.isIdleIn : Role → FieldKind → Bool
  | .tags, .single _ | .tags, .optional _ | .tags, .repeated _ _ | .tags, .map _ _ => true
  | .type, .map _ _ | .type, .oneof | .type, .unknown => true
  | _, _ => false

/-- An item without a meaning, or with an attribute that a field of the kind does not look at. -/
def Item.isIdleIn (item : Item) (kind : FieldKind) : Bool :=
  match item.meaning? with
  | some m => m.role.isIdleIn kind
  | none => true

/-- The descriptor has what an attribute declares. -/
def Meaning.ShowsIn (field : Field) : Meaning → Prop
  | .tag n => (field.kind ≠ .oneof ∧ field.kind ≠ .unknown) ∧ field.tags = [n]
  | .tags ns => field.kind = .oneof ∧ field.tags = ns
  | .type t =>
      field.kind = .single t ∨ field.kind = .optional t ∨ ∃ packed, field.kind = .repeated t packed
  | .label .optional => ∃ t, field.kind = .optional t
  | .label .repeated => ∃ t packed, field.kind = .repeated t packed
  | .label .oneof => field.kind = .oneof
  | .label .unknown => field.kind = .unknown
  | .map text => Collected.mapKind text = .ok field.kind
  | .packed b => ∃ t, field.kind = .repeated t b
  | .name text => field.name = text
  | .jsonName text => field.jsonName = text

/-- The descriptor has what the item declares. -/
def Item.ShowsIn (item : Item) (field : Field) : Prop :=
  ∃ m, item.meaning? = some m ∧ m.ShowsIn field

/-- What shows is looked at. -/
theorem Meaning.ShowsIn.not_idle {m : Meaning} {field : Field} (shows : m.ShowsIn field)
    : m.role.isIdleIn field.kind = false := by
  cases m with
  | tags ns =>
      obtain ⟨oneof, -⟩ := shows
      rw [oneof]
      rfl
  | type t =>
      rcases shows with single | optional | ⟨packed, repeated⟩
      · rw [single]
        rfl
      · rw [optional]
        rfl
      · rw [repeated]
        rfl
  | tag _ | label _ | map _ | packed _ | name _ | jsonName _ => rfl

theorem Item.ShowsIn.not_idle {item : Item} {field : Field} (shows : item.ShowsIn field)
    : item.isIdleIn field.kind = false := by
  obtain ⟨m, meant, shows⟩ := shows
  rw [isIdleIn, meant]
  exact shows.not_idle

namespace Collected

variable {c : Collected} {m : Meaning} {identifier : String} {field : Field}

/-- What is collected shows in the descriptor if the kind looks at it.  The cases are the
attributes, each with the part of the description that reads it.
-/
theorem Describes.shows (h : c.Describes identifier field) (held : c.at? m.role = some m)
    (looked : m.role.isIdleIn field.kind = false)
    : m.ShowsIn field := by
  obtain ⟨-, given, packs, numbers, name, jsonName⟩ := h
  obtain ⟨kind, tags, ownName, ownJsonName⟩ := field
  dsimp only at given packs numbers name jsonName looked
  cases m with
  | tag n =>
      have held : c.tag = some n := by simpa [at?, Meaning.role] using held
      cases kind with
      | oneof | unknown => cases held.symm.trans numbers.1
      | single _ | optional _ | repeated _ _ | map _ _ =>
          obtain ⟨tag, own, rfl⟩ := numbers
          cases held.symm.trans own
          exact ⟨⟨nofun, nofun⟩, rfl⟩
  | tags ns =>
      have held : c.tags = some ns := by simpa [at?, Meaning.role] using held
      cases kind with
      | unknown => cases held.symm.trans numbers.2.1
      | oneof =>
          cases held.symm.trans numbers.2
          exact ⟨rfl, rfl⟩
      | single _ | optional _ | repeated _ _ | map _ _ => cases looked
  | type t =>
      have held : c.type = some t := by simpa [at?, Meaning.role] using held
      cases kind with
      | single own =>
          cases held.symm.trans given.2.2
          exact .inl rfl
      | optional own =>
          cases held.symm.trans given.2.2
          exact .inr (.inl rfl)
      | repeated own packed =>
          cases held.symm.trans given.2.2.1
          exact .inr (.inr ⟨packed, rfl⟩)
      | map _ _ | oneof | unknown => cases looked
  | label word =>
      have held : c.label = some word := by simpa [at?, Meaning.role] using held
      cases kind with
      | single _ | map _ _ => cases held.symm.trans given.1
      | optional t =>
          cases held.symm.trans given.1
          exact ⟨t, rfl⟩
      | repeated t packed =>
          cases held.symm.trans given.1
          exact ⟨t, packed, rfl⟩
      | oneof | unknown =>
          cases held.symm.trans given.1
          rfl
  | map text =>
      have held : c.map = some text := by simpa [at?, Meaning.role] using held
      cases kind with
      | single _ | optional _ | repeated _ _ => cases held.symm.trans given.2.1
      | oneof | unknown => cases held.symm.trans given.2
      | map key value =>
          obtain ⟨-, own, mapped, typed⟩ := given
          cases held.symm.trans mapped
          exact typed
  | packed b =>
      have held : c.packed = some b := by simpa [at?, Meaning.role] using held
      obtain ⟨t, packed, rfl⟩ := packs (by rw [held]; rfl)
      obtain ⟨-, -, -, rfl, -⟩ := given
      rw [held]
      exact ⟨t, rfl⟩
  | name text =>
      have held : c.name = some text := by simpa [at?, Meaning.role] using held
      rw [held] at name
      exact name.symm
  | jsonName text =>
      have held : c.jsonName = some text := by simpa [at?, Meaning.role] using held
      rw [held] at jsonName
      exact jsonName.symm

/-- What is collected less what a field of the kind does not look at. -/
def trim (c : Collected) : FieldKind → Collected
  | .single _ | .optional _ | .repeated _ _ => { c with tags := none }
  | .map _ _ => { c with tags := none, type := none }
  | .oneof | .unknown => { c with type := none }

theorem at?_trim (c : Collected) (kind : FieldKind) (role : Role)
    : (c.trim kind).at? role = if role.isIdleIn kind then none else c.at? role := by
  cases kind <;> cases role <;> rfl

theorem strangers_trim (c : Collected) (kind : FieldKind)
    : (c.trim kind).strangers = c.strangers := by
  cases kind <;> rfl

theorem Describes.trim (h : c.Describes identifier field)
    : (c.trim field.kind).Describes identifier field := by
  obtain ⟨known, given, packs, numbers, name, jsonName⟩ := h
  obtain ⟨kind, tags, ownName, ownJsonName⟩ := field
  cases kind <;> exact ⟨known, given, packs, numbers, name, jsonName⟩

end Collected

section

variable {identifier : String} {items : List Item} {field : Field} {ms : List Meaning} {m : Meaning}

theorem at?_empty (role : Role)
    : ({} : Collected).at? role = none := by
  cases role <;> rfl

theorem fresh_empty
    : ({} : Collected).Fresh ms ↔ (ms.map Meaning.role).Nodup :=
  ⟨fun fresh => fresh.distinct, fun distinct => ⟨distinct, fun m _ => at?_empty m.role⟩⟩

theorem at?_collected (distinct : ((meanings items).map Meaning.role).Nodup) (role : Role)
    : (items.foldl Collected.withItem {}).at? role
      = (meanings items).find? fun m => m.role = role := by
  rw [Collected.at?_foldl_withItem (fresh_empty.mpr distinct), at?_empty, Option.none_or]

theorem strangers_collected
    : (items.foldl Collected.withItem {}).strangers = 0
      ↔ ∀ item ∈ items, item.isStranger = false := by
  rw [Collected.strangers_foldl_withItem, Nat.zero_add, List.countP_eq_zero]
  simp only [Bool.not_eq_true]

/-- A field is accepted if each item is well-formed and known, no two have the same role, and the
collected items describe it.
-/
theorem ofItems_eq_ok_iff
    : Field.ofItems identifier items = .ok field
        ↔ (∀ item ∈ items, item.IsClear) ∧ (∀ item ∈ items, item.isStranger = false)
          ∧ ((meanings items).map Meaning.role).Nodup
          ∧ (items.foldl Collected.withItem {}).Describes identifier field := by
  simp only [Collected.ofItems_eq, bind_eq_ok_iff, Collected.foldlM_addToField_eq_ok_iff,
    Collected.describe_eq_ok_iff, fresh_empty]
  constructor
  · rintro ⟨_, ⟨clear, distinct, rfl⟩, described⟩
    exact ⟨clear, strangers_collected.mp described.known, distinct, described⟩
  · rintro ⟨clear, -, distinct, described⟩
    exact ⟨_, ⟨clear, distinct, rfl⟩, described⟩

/-- Of meanings with different roles, each is the one that has its role. -/
theorem find?_role (distinct : (ms.map Meaning.role).Nodup) (listed : m ∈ ms)
    : (ms.find? fun n => n.role = m.role) = some m := by
  induction ms with
  | nil => cases listed
  | cons first ms ih =>
      obtain ⟨new, others⟩ := List.nodup_cons.mp distinct
      rcases List.mem_cons.mp listed with rfl | behind
      · exact List.find?_cons_of_pos (decide_eq_true rfl)
      · have other : first.role ≠ m.role := fun same => new (same ▸ List.mem_map_of_mem behind)
        rw [List.find?_cons_of_neg (by simpa using other)]
        exact ih others behind

/-- The items that a field of the kind looks at. -/
def lookedAt (kind : FieldKind) (items : List Item) : List Item :=
  items.filter fun item => !item.isIdleIn kind

theorem meanings_lookedAt (kind : FieldKind)
    : meanings (lookedAt kind items) = (meanings items).filter fun m => !m.role.isIdleIn kind := by
  induction items with
  | nil => rfl
  | cons item items ih =>
      rw [lookedAt, List.filter_cons]
      cases meant : item.meaning? with
      | none =>
          have idle : (!item.isIdleIn kind) = false := by rw [Item.isIdleIn, meant]; rfl
          rw [idle, meanings, meanings, List.filterMap_cons_none meant]
          exact ih
      | some m =>
          have same : item.isIdleIn kind = m.role.isIdleIn kind := by rw [Item.isIdleIn, meant]
          rw [same, meanings, meanings, List.filterMap_cons_some meant, List.filter_cons]
          cases m.role.isIdleIn kind
          · exact (List.filterMap_cons_some meant).trans (congrArg (List.cons m) ih)
          · exact ih

theorem find?_filter_idle (kind : FieldKind) (role : Role)
    : ((ms.filter fun m => !m.role.isIdleIn kind).find? fun m => m.role = role)
        = if role.isIdleIn kind then none else ms.find? fun m => m.role = role := by
  rw [List.find?_filter]
  split
  · rename_i idle
    refine List.find?_eq_none.mpr fun m _ both => ?_
    obtain ⟨looked, same⟩ := of_decide_eq_true both
    rw [of_decide_eq_true same, idle] at looked
    cases looked
  · rename_i looked
    congr 1
    funext m
    by_cases same : m.role = role <;> simp [same, looked]

/-- What is collected of the items that are looked at is trimmed of the others. -/
theorem collected_lookedAt (kind : FieldKind) (known : ∀ item ∈ items, item.isStranger = false)
    (distinct : ((meanings items).map Meaning.role).Nodup)
    : ((meanings (lookedAt kind items)).map Meaning.role).Nodup
      ∧ (lookedAt kind items).foldl Collected.withItem {}
          = (items.foldl Collected.withItem {}).trim kind := by
  have distinct' : ((meanings (lookedAt kind items)).map Meaning.role).Nodup := by
    rw [meanings_lookedAt]
    exact distinct.sublist (List.filter_sublist.map _)
  have known' : ∀ item ∈ lookedAt kind items, item.isStranger = false :=
    fun item listed => known item (List.mem_filter.mp listed).1
  refine ⟨distinct', Collected.ext_at (fun role => ?_) ?_⟩
  · rw [Collected.at?_trim, at?_collected distinct, at?_collected distinct', meanings_lookedAt,
      find?_filter_idle]
  · rw [Collected.strangers_trim, strangers_collected.mpr known, strangers_collected.mpr known']

/-- An accepted field shows its items.  Each is a literal or has a meaning, and no attribute stands
twice.  An item shows in the descriptor exactly if a field of that kind looks at it, which it does
not for literals, for a list of numbers outside a oneof, and for a type on a map, on a oneof and on
the bytes of undeclared fields; without the items that are not looked at the field has the same
descriptor.
-/
theorem accepted_fields_show_items (accepted : Field.ofItems identifier items = .ok field)
    : (∀ item ∈ items, item.isLiteral ∨ ∃ m, item.meaning? = some m)
      ∧ ((meanings items).map Meaning.role).Nodup
      ∧ (∀ item ∈ items, item.ShowsIn field ↔ item.isIdleIn field.kind = false)
      ∧ Field.ofItems identifier (lookedAt field.kind items) = .ok field := by
  obtain ⟨clear, known, distinct, described⟩ := ofItems_eq_ok_iff.mp accepted
  refine ⟨fun item listed => ?_, distinct, fun item listed => ⟨Item.ShowsIn.not_idle,
    fun looked => ?_⟩, ?_⟩
  · have own := known item listed
    rw [Item.isStranger] at own
    cases meant : item.meaning? with
    | none => simpa [meant] using own
    | some m => exact .inr ⟨m, rfl⟩
  · cases meant : item.meaning? with
    | none =>
        rw [Item.isIdleIn, meant] at looked
        cases looked
    | some m =>
        rw [Item.isIdleIn, meant] at looked
        have held := (at?_collected distinct m.role).trans
          (find?_role distinct (List.mem_filterMap.mpr ⟨item, listed, meant⟩))
        exact ⟨m, meant, described.shows held looked⟩
  · obtain ⟨distinct', trimmed⟩ := collected_lookedAt field.kind known distinct
    refine ofItems_eq_ok_iff.mpr ⟨fun item listed => clear item (List.mem_filter.mp listed).1,
      fun item listed => known item (List.mem_filter.mp listed).1, distinct', ?_⟩
    rw [trimmed]
    exact described.trim

/-- A repeated field that declines packing shows its label, but not the numbers of a oneof. -/
theorem accepted_fields_show_items_unpacked
    : let packing := Item.assign "packed" (.string "false")
      let numbers := Item.assign "tags" (.string "6, 7")
      let items := [packing, .literal (.integer 8), .word "repeated", .call "tag" [.integer 5],
        numbers, .word "uint64"]
      let field : Field := ⟨.repeated .uint64 false, [5], "type", "type"⟩
      Field.ofItems "r#type" items = .ok field ∧ packing.ShowsIn field ∧ ¬numbers.ShowsIn field
      ∧ Field.ofItems "r#type" [packing, .word "repeated", .call "tag" [.integer 5], .word "uint64"]
          = .ok field := by
  intro packing numbers items field
  have accepted : Field.ofItems "r#type" items = .ok field := by decide +kernel
  obtain ⟨-, -, shows, same⟩ := accepted_fields_show_items accepted
  exact ⟨accepted, (shows packing (by decide)).mpr (by decide +kernel),
    (shows numbers (by decide)).not.mpr (by decide +kernel), same⟩

/-- A literal and a list of numbers are accepted on a field that does not show them, and so is a
type on a map, on a oneof and on the bytes of undeclared fields.
-/
theorem accepted_fields_pass_over_items
    : let plain := [Item.assign "tag" (.integer 1), .word "int32"]
      let field : Field := ⟨.single .int32, [1], "x", "x"⟩
      let mapped : Field := ⟨.map .string .int32, [1], "x", "x"⟩
      let choice : Field := ⟨.oneof, [1, 2], "x", "x"⟩
      let undeclared : Field := ⟨.unknown, [], "x", "x"⟩
      (Field.ofItems "x" (plain ++ [.literal (.string "y")]) = .ok field
        ∧ ¬(Item.literal (.string "y")).ShowsIn field)
      ∧ (Field.ofItems "x" (plain ++ [.call "tags" [.integer 7]]) = .ok field
        ∧ ¬(Item.call "tags" [.integer 7]).ShowsIn field)
      ∧ (Field.ofItems "x" [.assign "tag" (.integer 1), .assign "map" (.string "string, int32"),
        .word "bytes"]
          = .ok mapped
        ∧ ¬(Item.word "bytes").ShowsIn mapped)
      ∧ (Field.ofItems "x" [.word "oneof", .assign "tags" (.string "1, 2"), .word "bytes"]
        = .ok choice
        ∧ ¬(Item.word "bytes").ShowsIn choice)
      ∧ (Field.ofItems "x" [.word "unknown", .word "bytes"] = .ok undeclared
        ∧ ¬(Item.word "bytes").ShowsIn undeclared) := by
  intro plain field mapped choice undeclared
  have passed {item : Item} {field : Field}
    (idle : item.isIdleIn field.kind) : ¬item.ShowsIn field :=
    fun shows => absurd shows.not_idle (by simp [idle])
  refine ⟨⟨?_, passed ?_⟩, ⟨?_, passed ?_⟩, ⟨?_, passed ?_⟩, ⟨?_, passed ?_⟩, ?_, passed ?_⟩
  all_goals decide +kernel

end

end Protobuf.Declaration
