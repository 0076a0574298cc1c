import Protobuf.Proofs.Json.Cursor

/-! Documents as tokens.  Two documents that spell the same tokens, with other blanks between them
and other escapes in their strings, are scanned in the same way; so a scanner sees the tokens and
not their spelling.
-/

namespace Protobuf.Json

open Text

-----------------------------------------------------------------------------------------
-- Tokens
-----------------------------------------------------------------------------------------

/-- A token of a document: a bracket, brace, colon or comma, a word, a number as it is spelled, or
the code units of a string.
-/
inductive Token where
  | mark (b : UInt8) (legal : b ∈ [44, 58, 91, 93, 123, 125])
  | word (text : String) (legal : text ∈ ["null", "true", "false"])
  | number (v : Numeral)
  | string (units : List Nat)

namespace Token

/-- The bytes spell the token. -/
def Spelled : Token → List UInt8 → Prop
  | mark b _, bytes => bytes = [b]
  | word text _, bytes => bytes = utf8 text
  | number v, bytes => bytes = utf8 (String.ofList v.text)
  | string units, bytes =>
      ∃ spelling, IsWideLiteral units spelling ∧ bytes = utf8 (String.ofList spelling)

/-- The token ends where the bytes begin, which concerns only numbers. -/
def Stops : Token → List UInt8 → Prop
  | number _, behind => ∀ b ∈ behind.head?, ¬isNumberByte b
  | _, _ => True

/-- The token begins with the byte, as far as that tells what kind of token it is. -/
def Begins : Token → UInt8 → Prop
  | mark c _, b => b = c
  | word text _, b => b ∈ (utf8 text).head?
  | number _, b => ValueKind.ofByte? b = some .number
  | string _, b => b = 34

end Token

/-- The bytes in front of the rest spell the tokens, with blanks between them. -/
def Lexes : List Token → List UInt8 → List UInt8 → Prop
  | [], bytes, rest => ∃ before, bytes = before ++ rest ∧ ∀ b ∈ before, isBlank b
  | t :: ts, bytes, rest =>
      ∃ before piece behind, bytes = before ++ (piece ++ behind) ∧ (∀ b ∈ before, isBlank b)
        ∧ t.Spelled piece ∧ t.Stops behind ∧ Lexes ts behind rest

section

variable {t : Token} {ts us : List Token} {bytes mid rest piece behind before : List UInt8}

-----------------------------------------------------------------------------------------
-- Tokens in front
-----------------------------------------------------------------------------------------

theorem dropBlanks_append (blank : ∀ b ∈ before, isBlank b) (bytes : List UInt8)
    : dropBlanks (before ++ bytes) = dropBlanks bytes :=
  List.dropWhile_append_of_pos blank

theorem takeWhile_append_dropBlanks (bytes : List UInt8)
    : ∃ before, bytes = before ++ dropBlanks bytes ∧ ∀ b ∈ before, isBlank b :=
  ⟨_, List.takeWhile_append_dropWhile.symm, List.all_eq_true.mp List.all_takeWhile⟩

theorem Token.Spelled.exists_cons (h : t.Spelled piece)
    : ∃ b others, piece = b :: others ∧ ¬isBlank b ∧ t.Begins b := by
  cases t with
  | mark b legal =>
      have codes : ∀ b ∈ [44, 58, 91, 93, 123, 125], ¬isBlank b := by
        simp only [List.forall_mem_cons, List.not_mem_nil, false_implies, implies_true]
        decide
      exact ⟨b, [], h, codes b legal, rfl⟩
  | word text legal =>
      cases h
      simp only [List.mem_cons, List.not_mem_nil, or_false] at legal
      rcases legal with rfl | rfl | rfl
      · exact ⟨110, _, rfl, by decide, rfl⟩
      · exact ⟨116, _, rfl, by decide, rfl⟩
      · exact ⟨102, _, rfl, by decide, rfl⟩
  | number v =>
      obtain ⟨b, others, same, kind⟩ := (Node.number v).utf8_text_cons
      exact ⟨b, others, h.trans same, not_isBlank_of_kind kind, kind⟩
  | string units =>
      obtain ⟨spelling, ⟨body, -, rfl⟩, rfl⟩ := h
      refine ⟨34, (body ++ ['"']).flatMap String.utf8EncodeChar, ?_, by decide, rfl⟩
      rw [utf8_ofList, List.flatMap_cons]
      rfl

theorem Token.Spelled.dropBlanks (h : t.Spelled piece) (behind : List UInt8)
    : Json.dropBlanks (piece ++ behind) = piece ++ behind := by
  obtain ⟨b, others, rfl, visible, -⟩ := h.exists_cons
  exact List.dropWhile_cons_of_neg visible

theorem Lexes.of_cons (h : Lexes (t :: ts) bytes rest)
    : ∃ piece behind, dropBlanks bytes = piece ++ behind ∧ t.Spelled piece ∧ t.Stops behind
      ∧ Lexes ts behind rest := by
  obtain ⟨before, piece, behind, rfl, blank, spelled, stops, others⟩ := h
  exact ⟨piece, behind, by rw [dropBlanks_append blank, spelled.dropBlanks], spelled, stops, others⟩

theorem Lexes.dropBlanks_eq_nil (h : Lexes [] bytes [])
    : dropBlanks bytes = [] := by
  obtain ⟨before, rfl, blank⟩ := h
  rw [dropBlanks_append blank]
  rfl

/-- Blanks may stand in front. -/
theorem Lexes.blanks (h : Lexes ts bytes rest) (blank : ∀ b ∈ before, isBlank b)
    : Lexes ts (before ++ bytes) rest := by
  have both {more : List UInt8} (blank' : ∀ b ∈ more, isBlank b)
      : ∀ b ∈ before ++ more, isBlank b :=
    fun b listed => (List.mem_append.mp listed).elim (blank b) (blank' b)
  cases ts with
  | nil =>
      obtain ⟨more, rfl, blank'⟩ := h
      exact ⟨before ++ more, (List.append_assoc _ _ _).symm, both blank'⟩
  | cons t ts =>
      obtain ⟨more, piece, behind, rfl, blank', spelled⟩ := h
      exact ⟨before ++ more, piece, behind, (List.append_assoc _ _ _).symm, both blank', spelled⟩

theorem Lexes.of_dropBlanks (h : Lexes ts (dropBlanks bytes) rest)
    : Lexes ts bytes rest := by
  obtain ⟨before, same, blank⟩ := takeWhile_append_dropBlanks bytes
  exact same ▸ h.blanks blank

/-- A whole document spells the same tokens without the blanks in front of it. -/
theorem Lexes.dropBlanks (h : Lexes ts bytes [])
    : Lexes ts (dropBlanks bytes) [] := by
  cases ts with
  | nil => exact ⟨[], by rw [h.dropBlanks_eq_nil, List.append_nil], nofun⟩
  | cons t ts =>
      obtain ⟨piece, behind, visible, spelled⟩ := h.of_cons
      exact ⟨[], piece, behind, visible, nofun, spelled⟩

/-- By induction on the tokens in front. -/
theorem Lexes.append (h : Lexes ts bytes mid) (others : Lexes us mid rest)
    : Lexes (ts ++ us) bytes rest := by
  induction ts generalizing bytes with
  | nil =>
      obtain ⟨before, rfl, blank⟩ := h
      exact others.blanks blank
  | cons t ts ih =>
      obtain ⟨before, piece, behind, rfl, blank, spelled, stops, more⟩ := h
      exact ⟨before, piece, behind, rfl, blank, spelled, stops, ih more⟩

/-- The bytes in front of the rest are a document of their own, by induction on the tokens. -/
theorem Lexes.front (h : Lexes ts bytes rest)
    : ∃ front, bytes = front ++ rest ∧ Lexes ts front [] := by
  induction ts generalizing bytes with
  | nil =>
      obtain ⟨before, rfl, blank⟩ := h
      exact ⟨before, rfl, before, (List.append_nil _).symm, blank⟩
  | cons t ts ih =>
      obtain ⟨before, piece, behind, rfl, blank, spelled, stops, others⟩ := h
      obtain ⟨front, rfl, document⟩ := ih others
      refine ⟨before ++ (piece ++ front), by simp only [List.append_assoc], before, piece, front,
        rfl, blank, spelled, ?_, document⟩
      cases t with
      | number v =>
          intro b first
          refine stops b ?_
          rw [Option.mem_def, List.head?_append, Option.mem_def.mp first]
          rfl
      | mark _ _ | word _ _ | string _ => trivial

end

-----------------------------------------------------------------------------------------
-- Documents that spell the same tokens
-----------------------------------------------------------------------------------------

/-- The documents spell the same tokens. -/
def Beside (bytes₁ bytes₂ : List UInt8) : Prop :=
  ∃ ts, Lexes ts bytes₁ [] ∧ Lexes ts bytes₂ []

/-- The documents spell the same tokens down to the rests, and in the rests. -/
structure Parallel (bytes₁ bytes₂ rest₁ rest₂ : List UInt8) : Prop where
  taken : ∃ ts, Lexes ts bytes₁ rest₁ ∧ Lexes ts bytes₂ rest₂
  rest : Beside rest₁ rest₂

/-- What stands in front of two documents: nothing, or the same token. -/
inductive Faces (bytes₁ bytes₂ : List UInt8) : Prop
  | ends (blank₁ : dropBlanks bytes₁ = []) (blank₂ : dropBlanks bytes₂ = [])
  | token {t : Token} {piece₁ piece₂ behind₁ behind₂ : List UInt8}
    (visible₁ : dropBlanks bytes₁ = piece₁ ++ behind₁)
    (visible₂ : dropBlanks bytes₂ = piece₂ ++ behind₂) (spelled₁ : t.Spelled piece₁)
    (spelled₂ : t.Spelled piece₂) (stops₁ : t.Stops behind₁) (stops₂ : t.Stops behind₂)
    (behind : Parallel bytes₁ bytes₂ behind₁ behind₂)

section

variable {bytes₁ bytes₂ rest₁ rest₂ last₁ last₂ : List UInt8}

theorem Beside.faces (h : Beside bytes₁ bytes₂)
    : Faces bytes₁ bytes₂ := by
  obtain ⟨ts, first, second⟩ := h
  cases ts with
  | nil => exact .ends first.dropBlanks_eq_nil second.dropBlanks_eq_nil
  | cons t ts =>
      obtain ⟨piece₁, behind₁, visible₁, spelled₁, stops₁, others₁⟩ := first.of_cons
      obtain ⟨piece₂, behind₂, visible₂, spelled₂, stops₂, others₂⟩ := second.of_cons
      have single {bytes piece behind : List UInt8} (visible : dropBlanks bytes = piece ++ behind)
          (spelled : t.Spelled piece) (stops : t.Stops behind) : Lexes [t] bytes behind :=
        Lexes.of_dropBlanks ⟨[], piece, behind, visible, nofun, spelled, stops, [], rfl, nofun⟩
      exact .token visible₁ visible₂ spelled₁ spelled₂ stops₁ stops₂
        ⟨⟨[t], single visible₁ spelled₁ stops₁, single visible₂ spelled₂ stops₂⟩, ts,
          others₁, others₂⟩

theorem Beside.dropBlanks (h : Beside bytes₁ bytes₂)
    : Parallel bytes₁ bytes₂ (dropBlanks bytes₁) (dropBlanks bytes₂) := by
  obtain ⟨ts, first, second⟩ := h
  have none (bytes : List UInt8) : Lexes [] bytes (Json.dropBlanks bytes) :=
    takeWhile_append_dropBlanks bytes
  exact ⟨⟨[], none bytes₁, none bytes₂⟩, ts, first.dropBlanks, second.dropBlanks⟩

theorem Parallel.trans (first : Parallel bytes₁ bytes₂ rest₁ rest₂)
    (second : Parallel rest₁ rest₂ last₁ last₂)
    : Parallel bytes₁ bytes₂ last₁ last₂ := by
  obtain ⟨ts, taken₁, taken₂⟩ := first.taken
  obtain ⟨us, more₁, more₂⟩ := second.taken
  exact ⟨⟨ts ++ us, taken₁.append more₁, taken₂.append more₂⟩, second.rest⟩

/-- What was taken from the two documents spells the same tokens. -/
theorem Parallel.front {front₁ front₂ : List UInt8}
    (h : Parallel (front₁ ++ rest₁) (front₂ ++ rest₂) rest₁ rest₂)
    : Beside front₁ front₂ := by
  obtain ⟨ts, taken₁, taken₂⟩ := h.taken
  obtain ⟨front₁', same₁, document₁⟩ := taken₁.front
  obtain ⟨front₂', same₂, document₂⟩ := taken₂.front
  rw [← List.append_cancel_right same₁] at document₁
  rw [← List.append_cancel_right same₂] at document₂
  exact ⟨ts, document₁, document₂⟩

/-- The first bytes are the same. -/
theorem Beside.head?_dropBlanks (h : Beside bytes₁ bytes₂)
    : (Json.dropBlanks bytes₁).head? = (Json.dropBlanks bytes₂).head? := by
  cases h.faces with
  | ends blank₁ blank₂ => rw [blank₁, blank₂]
  | @token t piece₁ piece₂ _ _ visible₁ visible₂ spelled₁ spelled₂ =>
      rw [visible₁, visible₂]
      obtain ⟨b₁, others₁, rfl, -, first₁⟩ := spelled₁.exists_cons
      obtain ⟨b₂, others₂, rfl, -, first₂⟩ := spelled₂.exists_cons
      cases t with
      | mark c _ | string units =>
          cases first₁
          cases first₂
          rfl
      | word text _ | number v =>
          have same : b₁ :: others₁ = b₂ :: others₂ := Eq.trans spelled₁ (Eq.symm spelled₂)
          cases same
          rfl

/-- The token that stands in front of both documents begins with the first byte. -/
theorem Beside.token_at {b : UInt8} (h : Beside bytes₁ bytes₂)
    (first : (Json.dropBlanks bytes₁).head? = some b)
    : ∃ t piece₁ piece₂ behind₁ behind₂, Json.dropBlanks bytes₁ = piece₁ ++ behind₁
      ∧ Json.dropBlanks bytes₂ = piece₂ ++ behind₂ ∧ Token.Spelled t piece₁ ∧ t.Spelled piece₂
      ∧ t.Stops behind₁ ∧ t.Stops behind₂ ∧ Parallel bytes₁ bytes₂ behind₁ behind₂
        ∧ t.Begins b := by
  cases h.faces with
  | ends blank₁ =>
      rw [blank₁] at first
      cases first
  | @token t piece₁ piece₂ behind₁ behind₂ visible₁ visible₂ spelled₁ spelled₂ stops₁
    stops₂ behind =>
      obtain ⟨b', others, same, -, begins⟩ := spelled₁.exists_cons
      rw [visible₁, same] at first
      cases first
      exact ⟨t, piece₁, piece₂, behind₁, behind₂, visible₁, visible₂, spelled₁, spelled₂, stops₁,
        stops₂, behind, begins⟩

end

-----------------------------------------------------------------------------------------
-- Scanners that see only tokens
-----------------------------------------------------------------------------------------

namespace Scanner

/-- Two scans of documents give the same value behind the same tokens, or the same fault. -/
inductive Agree {α : Type} (bytes₁ bytes₂ : List UInt8)
    : EStateM.Result SyntaxFault (List UInt8) α → EStateM.Result SyntaxFault (List UInt8) α → Prop
  | ok {v : α} {rest₁ rest₂ : List UInt8} (parallel : Parallel bytes₁ bytes₂ rest₁ rest₂)
    : Agree bytes₁ bytes₂ (.ok v rest₁) (.ok v rest₂)
  | error {fault : SyntaxFault} {rest₁ rest₂ : List UInt8}
    : Agree bytes₁ bytes₂ (.error fault rest₁) (.error fault rest₂)

/-- The scanner does the same on documents that spell the same tokens. -/
def Follows {α : Type} (scanner : Scanner α) : Prop :=
  ∀ bytes₁ bytes₂, Beside bytes₁ bytes₂ → Agree bytes₁ bytes₂ (scanner bytes₁) (scanner bytes₂)

/-- The scanner does the same behind the blanks of such documents, if the byte stands there. -/
def FollowsAt {α : Type} (first : Option UInt8) (scanner : Scanner α) : Prop :=
  ∀ bytes₁ bytes₂, Beside bytes₁ bytes₂ → (dropBlanks bytes₁).head? = first
    → Agree bytes₁ bytes₂ (scanner (dropBlanks bytes₁)) (scanner (dropBlanks bytes₂))

section

variable {α β : Type} {scanner : Scanner α} {f : α → Scanner β} {first : Option UInt8}
  {bytes₁ bytes₂ rest₁ rest₂ : List UInt8}

theorem Agree.bind (h : Agree bytes₁ bytes₂ (scanner rest₁) (scanner rest₂))
    (next : ∀ v mid₁ mid₂, scanner rest₁ = .ok v mid₁ → Parallel bytes₁ bytes₂ mid₁ mid₂
      → Agree mid₁ mid₂ (f v mid₁) (f v mid₂))
    : Agree bytes₁ bytes₂ ((scanner >>= f) rest₁) ((scanner >>= f) rest₂) := by
  generalize scanned₁ : scanner rest₁ = x₁ at h
  generalize scanned₂ : scanner rest₂ = x₂ at h
  cases h with
  | error =>
      rw [bind_of_error scanned₁, bind_of_error scanned₂]
      exact .error
  | @ok v mid₁ mid₂ parallel =>
      rw [bind_of_ok scanned₁, bind_of_ok scanned₂]
      have last := next v mid₁ mid₂ scanned₁ parallel
      generalize f v mid₁ = y₁ at last
      generalize f v mid₂ = y₂ at last
      cases last with
      | error => exact .error
      | ok parallel' => exact .ok (parallel.trans parallel')

theorem follows_pure (v : α)
    : Follows (pure v) :=
  fun _ _ beside => .ok ⟨⟨[], ⟨[], rfl, nofun⟩, ⟨[], rfl, nofun⟩⟩, beside⟩

theorem follows_throw (fault : SyntaxFault)
    : Follows (throw fault : Scanner α) :=
  fun _ _ _ => .error

theorem Follows.bind (h : scanner.Follows) (next : ∀ v, (f v).Follows)
    : Follows (scanner >>= f) :=
  fun bytes₁ bytes₂ beside => (h bytes₁ bytes₂ beside).bind fun v _ _ _ parallel =>
    next v _ _ parallel.rest

theorem FollowsAt.bind (h : FollowsAt first scanner) (next : ∀ v, (f v).Follows)
    : FollowsAt first (scanner >>= f) :=
  fun bytes₁ bytes₂ beside first => (h bytes₁ bytes₂ beside first).bind fun v _ _ _ parallel =>
    next v _ _ parallel.rest

theorem Follows.at (h : scanner.Follows) (first : Option UInt8)
    : FollowsAt first scanner := by
  intro bytes₁ bytes₂ beside _
  have blanks := beside.dropBlanks
  have own := h _ _ blanks.rest
  generalize scanner (dropBlanks bytes₁) = x₁ at own
  generalize scanner (dropBlanks bytes₂) = x₂ at own
  cases own with
  | error => exact .error
  | ok parallel => exact .ok (blanks.trans parallel)

/-- What is done next may depend on the byte that stands there. -/
theorem follows_peek {f : Option UInt8 → Scanner β} (next : ∀ first, FollowsAt first (f first))
    : Follows (peek >>= f) := by
  intro bytes₁ bytes₂ beside
  have same := beside.head?_dropBlanks
  change Agree bytes₁ bytes₂ (f (dropBlanks bytes₁).head? (dropBlanks bytes₁))
    (f (dropBlanks bytes₂).head? (dropBlanks bytes₂))
  rw [← same]
  exact next _ bytes₁ bytes₂ beside rfl

end

-----------------------------------------------------------------------------------------
-- Scanners for one token
-----------------------------------------------------------------------------------------

/-- A word begins with one of three letters. -/
theorem mem_of_begins_word {b : UInt8} {text : String} {legal : text ∈ ["null", "true", "false"]}
    (begins : (Token.word text legal).Begins b)
    : b = 110 ∧ text = "null" ∨ b = 116 ∧ text = "true" ∨ b = 102 ∧ text = "false" := by
  simp only [List.mem_cons, List.not_mem_nil, or_false] at legal
  rcases legal with rfl | rfl | rfl
  · cases begins
    exact .inl ⟨rfl, rfl⟩
  · cases begins
    exact .inr (.inl ⟨rfl, rfl⟩)
  · cases begins
    exact .inr (.inr ⟨rfl, rfl⟩)

theorem followsAt_string
    : FollowsAt (some 34) string := by
  intro bytes₁ bytes₂ beside first
  obtain ⟨t, piece₁, piece₂, behind₁, behind₂, visible₁, visible₂, spelled₁, spelled₂, -, -, behind,
    begins⟩ := beside.token_at first
  cases t with
  | string units =>
      obtain ⟨spelling₁, literal₁, rfl⟩ := spelled₁
      obtain ⟨spelling₂, literal₂, rfl⟩ := spelled₂
      have read₁ := string_of_isWideLiteral literal₁ behind₁
      have read₂ := string_of_isWideLiteral literal₂ behind₂
      rw [visible₁, visible₂]
      cases denoted : textOfUnits units with
      | ok text =>
          rw [denoted] at read₁ read₂
          rw [show string _ = _ from read₁, show string _ = _ from read₂]
          exact .ok behind
      | error fault =>
          rw [denoted] at read₁ read₂
          obtain ⟨rest₁, read₁⟩ := read₁
          obtain ⟨rest₂, read₂⟩ := read₂
          rw [read₁, read₂]
          exact .error
  | mark c legal =>
      cases begins
      exact absurd legal (by decide)
  | word text legal =>
      rcases mem_of_begins_word begins with ⟨same, _⟩ | ⟨same, _⟩ | ⟨same, _⟩ <;> cases same
  | number v => cases begins

theorem followsAt_number {b : UInt8} (kind : ValueKind.ofByte? b = some .number)
    : FollowsAt (some b) number := by
  intro bytes₁ bytes₂ beside first
  obtain ⟨t, piece₁, piece₂, behind₁, behind₂, visible₁, visible₂, spelled₁, spelled₂, stops₁,
    stops₂, behind, begins⟩ := beside.token_at first
  cases t with
  | number v =>
      cases spelled₁
      cases spelled₂
      rw [visible₁, visible₂, number_of_stops v stops₁, number_of_stops v stops₂]
      exact .ok behind
  | mark c legal =>
      cases begins
      have codes : ∀ b ∈ [44, 58, 91, 93, 123, 125], ValueKind.ofByte? b ≠ some .number := by
        simp only [List.forall_mem_cons, List.not_mem_nil, false_implies, implies_true]
        decide
      exact absurd kind (codes b legal)
  | word text legal =>
      rcases mem_of_begins_word begins with ⟨rfl, _⟩ | ⟨rfl, _⟩ | ⟨rfl, _⟩ <;> cases kind
  | string units =>
      cases begins
      cases kind

/-- A word is scanned where it begins. -/
theorem followsAt_literal {b : UInt8} {word : String}
    (known : b = 110 ∧ word = "null" ∨ b = 116 ∧ word = "true" ∨ b = 102 ∧ word = "false")
    : FollowsAt (some b) (literal word) := by
  intro bytes₁ bytes₂ beside first
  obtain ⟨t, piece₁, piece₂, behind₁, behind₂, visible₁, visible₂, spelled₁, spelled₂, -, -, behind,
    begins⟩ := beside.token_at first
  cases t with
  | word text legal =>
      have same : word = text := by
        rcases mem_of_begins_word begins with ⟨rfl, rfl⟩ | ⟨rfl, rfl⟩ | ⟨rfl, rfl⟩
          <;> simpa using known
      cases spelled₁
      cases spelled₂
      rw [visible₁, visible₂, ← same, literal_utf8, literal_utf8]
      exact .ok behind
  | mark c legal =>
      cases begins
      rcases known with ⟨rfl, _⟩ | ⟨rfl, _⟩ | ⟨rfl, _⟩ <;> exact absurd legal (by decide)
  | number v => rcases known with ⟨rfl, _⟩ | ⟨rfl, _⟩ | ⟨rfl, _⟩ <;> cases begins
  | string units =>
      cases begins
      rcases known with ⟨same, _⟩ | ⟨same, _⟩ | ⟨same, _⟩ <;> cases same

/-- A mark is one byte, which is taken. -/
theorem followsAt_advance {b : UInt8} (legal : b ∈ [44, 58, 91, 93, 123, 125])
    : FollowsAt (some b) advance := by
  intro bytes₁ bytes₂ beside first
  obtain ⟨t, piece₁, piece₂, behind₁, behind₂, visible₁, visible₂, spelled₁, spelled₂, -, -, behind,
    begins⟩ := beside.token_at first
  cases t with
  | mark c legal =>
      cases spelled₁
      cases spelled₂
      rw [visible₁, visible₂]
      exact .ok behind
  | word text =>
      rcases mem_of_begins_word begins with ⟨rfl, _⟩ | ⟨rfl, _⟩ | ⟨rfl, _⟩
        <;> exact absurd legal (by decide)
  | number v =>
      have codes : ∀ b ∈ [44, 58, 91, 93, 123, 125], ValueKind.ofByte? b ≠ some .number := by
        simp only [List.forall_mem_cons, List.not_mem_nil, false_implies, implies_true]
        decide
      exact absurd begins (codes b legal)
  | string units =>
      cases begins
      exact absurd legal (by decide)

-----------------------------------------------------------------------------------------
-- Scanners for values
-----------------------------------------------------------------------------------------

section

variable {bytes₁ bytes₂ : List UInt8} {value others : Scanner Unit}

theorem follows_expect {b : UInt8} (legal : b ∈ [44, 58, 91, 93, 123, 125]) (fault : SyntaxFault)
    : (expect b fault).Follows := by
  refine follows_peek fun first => ?_
  split
  · rename_i same
    rw [beq_iff_eq.mp same]
    exact followsAt_advance legal
  · exact (follows_throw fault).at first

theorem follows_keyAndColon
    : keyAndColon.Follows := by
  refine follows_peek fun first => ?_
  split
  · rename_i same
    rw [beq_iff_eq.mp same]
    exact followsAt_string.bind
      fun key => (follows_expect (by decide) _).bind fun _ => follows_pure key
  · exact (follows_throw _).at first

/-- Behind a member or element both documents end the container or go on, and go on with less. -/
theorem Agree.proceed {close : UInt8} {fault : SyntaxFault} (beside : Beside bytes₁ bytes₂)
    (legal : close ∈ [44, 58, 91, 93, 123, 125])
    (next : ∀ rest₁ rest₂, dropBlanks bytes₁ = 44 :: rest₁ → Beside rest₁ rest₂
      → Agree rest₁ rest₂ (others rest₁) (others rest₂))
    : Agree bytes₁ bytes₂ (proceed close fault others bytes₁)
      (proceed close fault others bytes₂) := by
  have same := beside.head?_dropBlanks
  have comma := followsAt_advance (b := 44) (by decide) bytes₁ bytes₂ beside
  have closing := followsAt_advance legal bytes₁ bytes₂ beside
  unfold Scanner.proceed
  cases visible₁ : dropBlanks bytes₁ with
  | nil =>
      rw [visible₁] at same
      rw [List.head?_eq_none_iff.mp same.symm]
      exact .error
  | cons b rest₁ =>
      rw [visible₁] at same comma closing
      obtain ⟨rest₂, visible₂⟩ := List.head?_eq_some_iff.mp same.symm
      rw [visible₂] at comma closing ⊢
      dsimp only
      split
      · subst b
        cases comma rfl with
        | ok parallel =>
            have last := next rest₁ rest₂ visible₁ parallel.rest
            generalize others rest₁ = x₁ at last
            generalize others rest₂ = x₂ at last
            cases last with
            | error => exact .error
            | ok parallel' => exact .ok (parallel.trans parallel')
      split
      · subst b
        exact closing rfl
      · exact .error

/-- By induction on the length of the members. -/
theorem follows_skipMembers (suffixes : value.Suffixes) (h : value.Follows)
    : Follows (skipMembers value) := by
  intro bytes₁ bytes₂ beside
  induction length : bytes₁.length using Nat.strongRecOn generalizing bytes₁ bytes₂ with
  | ind n ih =>
      rw [skipMembers_unfold suffixes]
      refine (follows_keyAndColon _ _ beside).bind fun key start₁ start₂ keyed parallel => ?_
      refine (h _ _ parallel.rest).bind fun _ behind₁ behind₂ passed parallel => ?_
      refine Agree.proceed parallel.rest (by decide) fun rest₁ rest₂ comma beside => ?_
      have short := consumes_keyAndColon _ _ _ keyed
      have inside := ((dropBlanks_suffix behind₁).trans (suffixes.of_ok passed)).length_le
      rw [comma, List.length_cons] at inside
      exact ih _ (by omega) rest₁ rest₂ beside rfl

/-- By induction on the length of the elements. -/
theorem follows_skipElements (taken : value.Consumes) (h : value.Follows)
    : Follows (skipElements value) := by
  intro bytes₁ bytes₂ beside
  induction length : bytes₁.length using Nat.strongRecOn generalizing bytes₁ bytes₂ with
  | ind n ih =>
      rw [skipElements_unfold taken]
      refine (h _ _ beside).bind fun _ behind₁ behind₂ passed parallel => ?_
      refine Agree.proceed parallel.rest (by decide) fun rest₁ rest₂ comma beside => ?_
      have short := taken _ _ _ passed
      have inside := (dropBlanks_suffix behind₁).length_le
      rw [comma, List.length_cons] at inside
      exact ih _ (by omega) rest₁ rest₂ beside rfl

theorem follows_enclosed {close : UInt8} (legal : close ∈ [44, 58, 91, 93, 123, 125])
    (h : others.Follows)
    : (enclosed close others).Follows := by
  refine follows_peek fun first => ?_
  split
  · rename_i same
    rw [beq_iff_eq.mp same]
    exact followsAt_advance legal
  · exact h.at first

/-- By induction on how deep the value may nest. -/
theorem follows_skipValue (depth : Nat)
    : (skipValue depth).Follows := by
  induction depth with
  | zero => exact follows_throw _
  | succ depth ih =>
      rw [skipValue]
      refine follows_peek fun first => ?_
      cases first with
      | none => exact (follows_throw _).at none
      | some b =>
          dsimp only
          split
          · subst b
            exact (followsAt_advance (by decide)).bind fun _ =>
              follows_enclosed (by decide) (follows_skipMembers (suffixes_skipValue depth) ih)
          split
          · subst b
            exact (followsAt_advance (by decide)).bind fun _ =>
              follows_enclosed (by decide) (follows_skipElements (consumes_skipValue depth) ih)
          split
          · subst b
            exact followsAt_string.bind fun _ => follows_pure ()
          split
          · subst b
            exact followsAt_literal (by decide)
          split
          · subst b
            exact followsAt_literal (by decide)
          split
          · subst b
            exact followsAt_literal (by decide)
          split
          · rename_i starts
            exact (followsAt_number (kind_of_number starts)).bind fun _ => follows_pure ()
          · exact (follows_throw _).at (some b)

end

end Scanner

end Protobuf.Json
