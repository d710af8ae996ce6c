import PeerIdentity.Json.Value
import PeerIdentity.Proofs.Json.Literal

/-!
# Objects are read back

An object whose values are texts and values without parts is read back from every text that writes
its tokens, whatever spaces stand between them. A token is read the same way whatever follows, so a
text is read token by token, and an object member by member.

* `Json.IsSpelling`, `Json.Spells`: the characters of a token, and the texts of a list of tokens;
* `Json.Spells.tokens?_eq`: such a text gives the tokens;
* `Json.ofTokens?_objectTokens`: the tokens of an object give the object;
* `Json.Spells.object`, `Json.Spells.parse_eq`: the layouts of an object, and what they are read as.
-/

namespace PeerIdentity.Json

/-! ## Tokens -/

/-- The characters are read as the token, whatever follows. -/
def IsSpelling (c : List Char) (t : Token) : Prop :=
  ∀ rest, readToken (c ++ rest) = some (t, rest)

/-- The characters write the tokens one after another, with spaces around them. -/
inductive Spells : List Char → List Token → Prop
  | nil : Spells [] []
  | space {x : Char} {s : List Char} {ts : List Token} :
      isSpace x → Spells s ts → Spells (x :: s) ts
  | token {c s : List Char} {t : Token} {ts : List Token} :
      IsSpelling c t → Spells s ts → Spells (c ++ s) (t :: ts)

variable {x : Char} {c s u : List Char} {t : Token} {ts us : List Token}

/-- No token starts with a space. -/
theorem readToken_of_isSpace (h : isSpace x) : readToken (x :: s) = none := by
  have hx : x = ' ' ∨ x = '\t' ∨ x = '\n' ∨ x = '\r' := by
    simpa [isSpace, or_assoc] using h
  rcases hx with rfl | rfl | rfl | rfl <;> rfl

/-- A token has some character, and the first one is no space. -/
theorem IsSpelling.exists_eq_cons (h : IsSpelling c t) : ∃ x r, c = x :: r ∧ ¬ isSpace x := by
  cases c with
  | nil =>
    have hnil : readToken [] = some (t, []) := h []
    exact absurd hnil nofun
  | cons x r =>
    refine ⟨x, r, rfl, fun hx => ?_⟩
    have hnone := (readToken_of_isSpace hx).symm.trans (h [])
    exact absurd hnone nofun

/-- Spaces before a token use up no fuel. -/
theorem tokensUpTo?_cons_of_isSpace (h : isSpace x) (fuel : Nat) (s : List Char) :
    tokensUpTo? fuel (x :: s) = tokensUpTo? fuel s := by
  cases fuel <;> simp [tokensUpTo?, h]

/-- What writes a token is read as it with one unit of fuel. -/
theorem tokensUpTo?_succ_append (h : IsSpelling c t) (fuel : Nat) (s : List Char) :
    tokensUpTo? (fuel + 1) (c ++ s) = (tokensUpTo? fuel s).map (t :: ·) := by
  obtain ⟨x, r, rfl, hx⟩ := h.exists_eq_cons
  have hread : readToken (x :: (r ++ s)) = some (t, s) := h s
  simp [tokensUpTo?, hx, hread]

namespace Spells

/-- Texts one after another write the tokens of both. -/
theorem append (hs : Spells s ts) (hu : Spells u us) : Spells (s ++ u) (ts ++ us) := by
  induction hs with
  | nil => exact hu
  | space hx _ ih => exact .space hx ih
  | token ht _ ih =>
    rw [List.append_assoc]
    exact .token ht ih

/-- What is read as a token writes it. -/
theorem single (ht : IsSpelling c t) : Spells c [t] := by
  simpa using token ht nil

/-- Spaces write no tokens. -/
theorem spaces (h : ∀ x ∈ s, isSpace x) : Spells s [] := by
  induction s with
  | nil => exact .nil
  | cons x s ih =>
    rw [List.forall_mem_cons] at h
    exact .space h.1 (ih h.2)

/-- What the elements of a list write, with separators between them. -/
theorem intercalate {ι : Type*} {write : ι → List Char} {tokens : ι → List Token}
    (hs : Spells s ts) (h : ∀ i, Spells (write i) (tokens i)) (l : List ι) :
    Spells (s.intercalate (l.map write)) (ts.intercalate (l.map tokens)) := by
  match l with
  | [] => simpa using nil
  | [i] => simpa using h i
  | i :: j :: l =>
    simp only [List.map_cons, List.intercalate_cons_cons]
    exact ((h i).append hs).append (intercalate hs h (j :: l))

/-- A text has no fewer characters than tokens, so its length is fuel enough. -/
theorem length_le (h : Spells s ts) : ts.length ≤ s.length := by
  induction h with
  | nil => exact Nat.le_refl 0
  | space _ _ ih => exact Nat.le_succ_of_le ih
  | token ht _ ih =>
    obtain ⟨x, r, rfl, -⟩ := ht.exists_eq_cons
    simp only [List.length_cons, List.length_append]
    omega

/-- With fuel for each token, a text is read as the tokens that it writes. -/
theorem tokensUpTo?_eq (h : Spells s ts) {fuel : Nat} (hfuel : ts.length ≤ fuel) :
    tokensUpTo? fuel s = some ts := by
  -- A space takes no fuel, and a token takes one step.
  induction h generalizing fuel with
  | nil => cases fuel <;> rfl
  | space hx _ ih =>
    rw [tokensUpTo?_cons_of_isSpace hx]
    exact ih hfuel
  | token ht _ ih =>
    obtain ⟨fuel, rfl⟩ : ∃ n, fuel = n + 1 := Nat.exists_eq_add_one.mpr (Nat.zero_lt_of_lt hfuel)
    rw [tokensUpTo?_succ_append ht, ih (Nat.le_of_succ_le_succ hfuel), Option.map_some]

/-- A text is read as the tokens that it writes. -/
theorem tokens?_eq (h : Spells s ts) : tokens? s = some ts :=
  h.tokensUpTo?_eq h.length_le

end Spells

/-! ## Values -/

/-- The token of a text or of a value without parts. -/
def Token.ofValue : Json → Token
  | .text s => .text s
  | v => .plain v

/-- The token of a value without parts is read as the value. -/
theorem readValue_ofValue (fuel : Nat) (v : Json) (ts : List Token) :
    readValue (fuel + 1) (.ofValue v :: ts) = some (v, ts) := by
  cases v <;> simp [Token.ofValue, readValue]

/-- A value without parts adds no nesting. -/
theorem nesting_ofValue (depth : Nat) (v : Json) (ts : List Token) :
    nesting depth (.ofValue v :: ts) = nesting depth ts := by
  cases v <;> simp [Token.ofValue, nesting]

/-! ## Objects -/

/-- The tokens of a member. -/
def memberTokens (m : String × Json) : List Token :=
  [.text m.1, .colon, .ofValue m.2]

/-- The tokens of members with commas between them. -/
def membersTokens (members : List (String × Json)) : List Token :=
  [Token.comma].intercalate (members.map memberTokens)

/-- The tokens of an object. -/
def objectTokens (members : List (String × Json)) : List Token :=
  .openObject :: membersTokens members ++ [.closeObject]

theorem membersTokens_singleton (m : String × Json) :
    membersTokens [m] = [.text m.1, .colon, .ofValue m.2] := rfl

theorem membersTokens_cons_cons (m n : String × Json) (members : List (String × Json)) :
    membersTokens (m :: n :: members) =
      .text m.1 :: .colon :: .ofValue m.2 :: .comma :: membersTokens (n :: members) := rfl

/-- There are no fewer tokens than members. -/
theorem length_le_length_membersTokens (members : List (String × Json)) :
    members.length ≤ (membersTokens members).length := by
  match members with
  | [] => exact Nat.zero_le _
  | [m] => simp [membersTokens_singleton]
  | m :: n :: members =>
    have h := length_le_length_membersTokens (n :: members)
    rw [membersTokens_cons_cons]
    simp only [List.length_cons] at h ⊢
    omega

/-- Members without parts add no nesting. -/
theorem nesting_membersTokens_append (depth : Nat) (members : List (String × Json))
    (ts : List Token) : nesting depth (membersTokens members ++ ts) = nesting depth ts := by
  match members with
  | [] => rfl
  | [m] => simp [membersTokens_singleton, nesting, nesting_ofValue]
  | m :: n :: members =>
    have h := nesting_membersTokens_append depth (n :: members) ts
    simp [membersTokens_cons_cons, nesting, nesting_ofValue, h]

/-- The members are read one after another, each in one step. -/
theorem readMembers_membersTokens_append {members : List (String × Json)} {fuel : Nat}
    (h : members ≠ []) (hfuel : members.length < fuel) (ts : List Token) :
    readMembers fuel (membersTokens members ++ .closeObject :: ts) = some (members, ts) := by
  induction members generalizing fuel with
  | nil => exact absurd rfl h
  | cons m members ih =>
    rw [List.length_cons] at hfuel
    obtain ⟨fuel, rfl⟩ : ∃ n, fuel = n + 2 := ⟨fuel - 2, by omega⟩
    cases members with
    | nil => simp [membersTokens_singleton, readMembers, readValue_ofValue]
    | cons n members =>
      have hrest := ih (List.cons_ne_nil n members) (Nat.lt_of_succ_lt_succ hfuel)
      simp [membersTokens_cons_cons, readMembers, readValue_ofValue, hrest]

/-- An object is read back from its tokens. -/
theorem ofTokens?_objectTokens (members : List (String × Json)) :
    ofTokens? (objectTokens members) = some (.object members) := by
  cases members with
  | nil => rfl
  | cons m members =>
    -- The tokens between the braces start with a key, so the object is not taken as empty.
    obtain ⟨ts, hts⟩ : ∃ ts, membersTokens (m :: members) = .text m.1 :: ts := by
      cases members with
      | nil => exact ⟨_, membersTokens_singleton m⟩
      | cons n members => exact ⟨_, membersTokens_cons_cons m n members⟩
    have hnesting : nesting 0 (objectTokens (m :: members)) ≤ maxNesting := by
      have hinner := nesting_membersTokens_append 1 (m :: members) [.closeObject]
      have hopen : nesting 0 (objectTokens (m :: members)) = nesting 1 [.closeObject] := by
        rw [← hinner, objectTokens, hts]
        rfl
      rw [hopen]
      decide
    have hread : readValue (objectTokens (m :: members)).length (objectTokens (m :: members)) =
        some (.object (m :: members), []) := by
      have hinner := readMembers_membersTokens_append (List.cons_ne_nil m members)
        (Nat.lt_succ_of_le (length_le_length_membersTokens (m :: members))) []
      rw [hts] at hinner
      simp only [objectTokens, hts, List.cons_append, List.length_cons, List.length_append,
        List.length_nil, Nat.zero_add] at hinner ⊢
      rw [readValue, hinner, Option.map_some]
      all_goals exact nofun
    rw [ofTokens?, if_pos hnesting, hread]

/-! ## Layouts -/

/-- The literal of a text is read as the text. -/
theorem isSpelling_literal (s : String) : IsSpelling (literal s) (.text s) := by
  intro rest
  have hliteral : literal s ++ rest = '"' :: (s.toList.flatMap escapeChar ++ '"' :: rest) := by
    simp [literal]
  rw [hliteral]
  show (readLiteral (s.toList.flatMap escapeChar ++ '"' :: rest)).map _ = some (Token.text s, rest)
  simp [readLiteral_flatMap_escapeChar_append]

namespace Spells

/-- A text that writes the tokens of an object is read as the object. -/
theorem parse_eq {s : String} {members : List (String × Json)}
    (h : Spells s.toList (objectTokens members)) : parse s = some (.object members) := by
  rw [parse, h.tokens?_eq, Option.bind_some]
  exact ofTokens?_objectTokens members

/-- An object with one spacing before each member, one before each value, and one at the end. -/
theorem object {ι : Type*} {pad gap close : List Char} (hpad : ∀ x ∈ pad, isSpace x)
    (hgap : ∀ x ∈ gap, isSpace x) (hclose : ∀ x ∈ close, isSpace x) {value : ι → Json}
    {spelling : ι → List Char} (h : ∀ i, IsSpelling (spelling i) (.ofValue (value i)))
    (key : ι → String) (l : List ι) :
    Spells
      ('\x7b' :: pad ++
        (',' :: pad).intercalate (l.map fun i => literal (key i) ++ (':' :: gap) ++ spelling i) ++
        close ++ ['\x7d'])
      (objectTokens (l.map fun i => (key i, value i))) := by
  have hmember (i : ι) : Spells (literal (key i) ++ (':' :: gap) ++ spelling i)
      (memberTokens (key i, value i)) := by
    have hkey := single (isSpelling_literal (key i))
    have hcolon : Spells (':' :: gap) [.colon] := .token (c := [':']) (fun _ => rfl) (spaces hgap)
    exact (hkey.append hcolon).append (single (h i))
  have hcomma : Spells (',' :: pad) [.comma] := .token (c := [',']) (fun _ => rfl) (spaces hpad)
  have hopen : Spells ('\x7b' :: pad) [.openObject] :=
    .token (c := ['\x7b']) (fun _ => rfl) (spaces hpad)
  have hend : Spells ['\x7d'] [.closeObject] := single fun _ => rfl
  have hobject := ((hopen.append (intercalate hcomma hmember l)).append (spaces hclose)).append hend
  simpa [objectTokens, membersTokens, Function.comp_def] using hobject

end Spells

end PeerIdentity.Json
