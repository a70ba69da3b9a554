import EntityQuery.Json.Tree
import EntityQuery.Proofs.Json.Numbers
import Mathlib.Data.List.Chain

/-!
# Reading back trees

The characters of a tree are read back as the tree: texts are restored character by
character whatever is escaped in them, and tokens are told apart without blanks since no
two numbers ever stand side by side.

Main results:

- Theorem `textElements?_flatMap_escapeChar`: an escaped text is read back.
- Theorem `Token.ofChars?_flatMap`: tokens are read back.
- Theorem `read?_write`: a tree is read back.
-/

namespace EntityQuery

namespace Json

/-! ## Texts -/

/-- The characters that are written as an escape of one letter. -/
def lettered : List Char := ['"', '\\', '\x08', '\x0c', '\n', '\r', '\t']

/-- What a character of a text is read back as: control characters without a letter are
named by their number. -/
def elementOf (c : Char) : TextElement :=
  if c ∉ lettered ∧ c.toNat < 0x20 then .unit c.toNat else .char c

/-- The letter of a character names it. -/
theorem exists_letter {c : Char} (h : c ∈ lettered) :
    ∃ e, e ≠ 'u' ∧ escapeChar c = ['\\', e] ∧ escaped? e = some c := by
  simp only [lettered, List.mem_cons, List.not_mem_nil, or_false] at h
  rcases h with rfl | rfl | rfl | rfl | rfl | rfl | rfl <;>
  · refine ⟨_, ?_, rfl, rfl⟩
    decide

/-- A character without a letter is written as its number or as itself. -/
theorem escapeChar_of_not_lettered {c : Char} (h : c ∉ lettered) :
    escapeChar c = if c.toNat < 0x20 then '\\' :: 'u' :: Text.hexChars 4 c.toNat else [c] := by
  simp only [lettered, List.mem_cons, List.not_mem_nil, or_false, not_or] at h
  obtain ⟨hquote, hslash, hb, hf, hn, hr, ht⟩ := h
  rw [escapeChar, if_neg hquote, if_neg hslash, if_neg hb, if_neg hf, if_neg hn, if_neg hr,
    if_neg ht]

/-- A control character is read back from its four digits. -/
theorem textElements?_hexChars {n : Nat} (h : n < 0x20) (rest : List Char) :
    textElements? ('\\' :: 'u' :: (Text.hexChars 4 n ++ rest)) =
      (textElements? rest).map fun (es, rest') => (.unit n :: es, rest') := by
  have hread : ∀ n < 0x20, Text.hexOfChars? (Text.hexChars 4 n) = some n := by decide
  have hn := hread n h
  simp only [Text.hexChars, List.nil_append, List.cons_append] at hn ⊢
  rw [textElements?, hn]
  cases textElements? rest <;> rfl

/-- A character is read back from the letter that names it. -/
theorem textElements?_letter {e c : Char} (he : e ≠ 'u') (h : escaped? e = some c)
    (rest : List Char) :
    textElements? ('\\' :: e :: rest) =
      (textElements? rest).map fun (es, rest') => (.char c :: es, rest') := by
  rw [textElements?]
  · rw [h]
    cases textElements? rest <;> rfl
  · intro _ _ _ _ _ heq
    exact absurd heq he

/-- A character that needs no escape is read back from itself. -/
theorem textElements?_self {c : Char} (hletter : c ∉ lettered) (hcontrol : ¬ c.toNat < 0x20)
    (rest : List Char) :
    textElements? (c :: rest) =
      (textElements? rest).map fun (es, rest') => (.char c :: es, rest') := by
  have hquote : c ≠ '"' := fun h => hletter (by rw [h]; decide)
  have hslash : c ≠ '\\' := fun h => hletter (by rw [h]; decide)
  rw [textElements?, if_neg (not_or.mpr ⟨hslash, hcontrol⟩)]
  · exact hquote
  · intro _ _ _ _ _ heq
    exact absurd heq hslash
  · intro _ _ heq
    exact absurd heq hslash

/-- A character is read back from how it is written inside a text. -/
theorem textElements?_escapeChar (c : Char) (rest : List Char) :
    textElements? (escapeChar c ++ rest) =
      (textElements? rest).map fun (es, rest') => (elementOf c :: es, rest') := by
  by_cases hletter : c ∈ lettered
  · obtain ⟨e, he, hescape, hnamed⟩ := exists_letter hletter
    rw [hescape, elementOf, if_neg (fun h => h.1 hletter)]
    exact textElements?_letter he hnamed rest
  · rw [escapeChar_of_not_lettered hletter, elementOf]
    by_cases hcontrol : c.toNat < 0x20
    · rw [if_pos hcontrol, if_pos ⟨hletter, hcontrol⟩]
      exact textElements?_hexChars hcontrol rest
    · rw [if_neg hcontrol, if_neg fun h => hcontrol h.2]
      exact textElements?_self hletter hcontrol rest

/-- The characters of a text and the closing quote are read back. -/
theorem textElements?_flatMap_escapeChar (cs rest : List Char) :
    textElements? (cs.flatMap escapeChar ++ '"' :: rest) = some (cs.map elementOf, rest) := by
  induction cs with
  | nil => rfl
  | cons c cs ih =>
      rw [List.flatMap_cons, List.append_assoc, textElements?_escapeChar, ih]
      rfl

/-- An element of a character stands for it, whatever follows. -/
theorem resolve?_elementOf (c : Char) (es : List TextElement) :
    TextElement.resolve? (elementOf c :: es) = (TextElement.resolve? es).map (c :: ·) := by
  unfold elementOf
  split
  · next h =>
      have hhigh : TextElement.isHigh c.toNat = false := by
        simp only [TextElement.isHigh, Bool.and_eq_false_iff, decide_eq_false_iff_not]
        omega
      have hlow : TextElement.isLow c.toNat = false := by
        simp only [TextElement.isLow, Bool.and_eq_false_iff, decide_eq_false_iff_not]
        omega
      -- A unit that follows would only matter behind the first half of a pair.
      cases es with
      | nil => simp [TextElement.resolve?, hhigh, hlow]
      | cons e es => cases e <;> simp [TextElement.resolve?, hhigh, hlow]
  · rfl

/-- The elements of characters stand for the characters. -/
theorem resolve?_map_elementOf (cs : List Char) :
    TextElement.resolve? (cs.map elementOf) = some cs := by
  induction cs with
  | nil => rfl
  | cons c cs ih =>
      rw [List.map_cons, resolve?_elementOf, ih]
      rfl

/-! ## Tokens -/

namespace Token

/-- Whether a token is a number. -/
def IsNumber : Token → Prop
  | number _ => True
  | _ => False

/-- A token that is read back on its own: numbers are spelled well, and texts have a
value. -/
def Readable : Token → Prop
  | number n => n.DigitParts ∧ Number.ofChars? n.chars = some n
  | text value => value ≠ none
  | _ => True

/-- Two tokens that are told apart without a blank between them. -/
def Apart (t u : Token) : Prop :=
  t.IsNumber → ¬ u.IsNumber

/-- A number is spelled with the characters that numbers are made of. -/
theorem isNumberChar_of_mem_chars {n : Number} (h : n.DigitParts) :
    ∀ c ∈ n.chars, isNumberChar c = true := by
  have hdigit : ∀ c : Char, c.isDigit = true → isNumberChar c = true := by
    intro c hc
    simp [isNumberChar, hc]
  intro c hc
  rw [Number.chars_eq] at hc
  rcases List.mem_append.mp hc with hsign | hc
  · split at hsign
    · rw [List.mem_singleton.mp hsign]
      rfl
    · cases hsign
  rcases List.mem_append.mp hc with hwhole | hc
  · exact hdigit c (h.whole c hwhole)
  rcases List.mem_append.mp hc with hfraction | hexponent
  · unfold Number.fractionChars at hfraction
    split at hfraction
    · cases hfraction
    · rcases List.mem_cons.mp hfraction with rfl | hfraction
      · rfl
      · exact hdigit c (h.fraction c hfraction)
  · cases hn : n.exponent with
    | none =>
        rw [hn] at hexponent
        cases hexponent
    | some e =>
        rw [hn] at hexponent
        rcases List.mem_cons.mp hexponent with rfl | hexponent
        · rfl
        rcases List.mem_cons.mp hexponent with rfl | hexponent
        · cases e.1 <;> rfl
        · exact hdigit c ((h.exponent e hn).2 c hexponent)

/-- A character of numbers is not a blank and starts no other token. -/
theorem of_isNumberChar {c : Char} (h : isNumberChar c = true) :
    isSpace c = false ∧ ofChar? c = none ∧ c ≠ '"' := by
  refine ⟨?_, ?_, ?_⟩
  · rw [Bool.eq_false_iff]
    intro hspace
    simp only [isSpace, Bool.or_eq_true, beq_iff_eq] at hspace
    rcases hspace with ((rfl | rfl) | rfl) | rfl <;> exact absurd h (by decide)
  · unfold ofChar?
    split
    case h_7 => rfl
    all_goals exact absurd h (by decide)
  · rintro rfl
    exact absurd h (by decide)

/-- No token starts with a blank or, but for a number, with a character of numbers; and
it is the first token of its characters if what follows a number is none of its own. -/
theorem exists_first? {t : Token} (h : t.Readable) {rest : List Char}
    (hrest : t.IsNumber → ∀ c ∈ rest.head?, isNumberChar c = false) :
    ∃ c cs, t.chars ++ rest = c :: cs ∧ isSpace c = false ∧ first? c cs = some (t, rest) := by
  cases t with
  | openArray | closeArray | openObject | closeObject | comma | colon | null =>
      exact ⟨_, _, rfl, rfl, rfl⟩
  | bool value => cases value <;> exact ⟨_, _, rfl, rfl, rfl⟩
  | number n =>
      obtain ⟨hparts, hread⟩ := h
      cases hchars : n.chars with
      | nil =>
          rw [hchars] at hread
          cases hread
      | cons c cs =>
          have hall := isNumberChar_of_mem_chars hparts
          rw [hchars] at hall hread
          obtain ⟨hspace, hother, hquote⟩ := of_isNumberChar (hall c List.mem_cons_self)
          have hcs : ∀ d ∈ cs, isNumberChar d = true :=
            fun d hd => hall d (List.mem_cons_of_mem c hd)
          refine ⟨c, cs ++ rest, by rw [chars, hchars]; rfl, hspace, ?_⟩
          simp only [first?, hother, if_neg hquote, if_pos (hall c List.mem_cons_self),
            takeWhile_append_rest hcs (hrest trivial), dropWhile_append_rest hcs (hrest trivial),
            hread]
          rfl
  | text value =>
      cases value with
      | none => exact absurd rfl h
      | some s =>
          refine ⟨'"', s.toList.flatMap escapeChar ++ '"' :: rest, ?_, rfl, ?_⟩
          · simp [chars]
          · have hother : ofChar? '"' = none := rfl
            simp only [first?, hother, if_true, textElements?_flatMap_escapeChar,
              Option.map_some, resolve?_map_elementOf, String.ofList_toList]

/-- A token is read back from its characters, before any others if it is no number. -/
theorem ofChars?_chars_append {t : Token} (h : t.Readable) {rest : List Char}
    (hrest : t.IsNumber → ∀ c ∈ rest.head?, isNumberChar c = false) :
    ofChars? (t.chars ++ rest) = (ofChars? rest).map (t :: ·) := by
  obtain ⟨c, cs, hchars, hspace, hfirst⟩ := exists_first? h hrest
  rw [hchars, ofChars?, hspace]
  simp only [Bool.false_eq_true, if_false]
  split
  · next hnone =>
      rw [hfirst] at hnone
      cases hnone
  · next t' rest' hsome =>
      rw [hfirst] at hsome
      cases hsome
      rfl

/-- No token but a number starts with a character of numbers. -/
theorem head?_chars_append {t : Token} (h : ¬ t.IsNumber) (rest : List Char) :
    ∀ c ∈ (t.chars ++ rest).head?, isNumberChar c = false := by
  cases t with
  | number n => exact absurd trivial h
  | bool value => cases value <;> simp [chars] <;> decide
  | _ => simp [chars]; decide

/-- Tokens are read back when no two numbers stand side by side. -/
theorem ofChars?_flatMap {ts : List Token} (h : ∀ t ∈ ts, t.Readable) (hc : ts.IsChain Apart) :
    ofChars? (ts.flatMap chars) = some ts := by
  induction ts with
  | nil => rw [List.flatMap_nil, ofChars?]
  | cons t ts ih =>
      obtain ⟨happart, hc⟩ := List.isChain_cons.mp hc
      rw [List.flatMap_cons, ofChars?_chars_append (h t List.mem_cons_self),
        ih (fun u hu => h u (List.mem_cons_of_mem t hu)) hc]
      · rfl
      · intro hnumber
        cases ts with
        | nil =>
            intro c hmem
            cases hmem
        | cons u us =>
            rw [List.flatMap_cons]
            exact head?_chars_append (happart u rfl hnumber) _

end Token

/-! ## Trees -/

/-- A tree of which every token is read back on its own. -/
def Readable (json : Json) : Prop :=
  ∀ t ∈ json.tokens, t.Readable

section Apart

variable {ts us : List Token}

/-- Anything may follow a token that is no number. -/
theorem isChain_cons {t : Token} (ht : ¬ t.IsNumber) (h : ts.IsChain Token.Apart) :
    (t :: ts).IsChain Token.Apart :=
  List.isChain_cons.mpr ⟨fun _ _ hnumber => absurd hnumber ht, h⟩

/-- Tokens that start with no number may follow anything. -/
theorem isChain_append (h : ts.IsChain Token.Apart) (h' : us.IsChain Token.Apart)
    (hhead : ∀ u ∈ us.head?, ¬ u.IsNumber) : (ts ++ us).IsChain Token.Apart :=
  List.isChain_append.mpr ⟨h, h', fun _ _ u hu _ => hhead u hu⟩

/-- Further items and what closes the array start with no number. -/
theorem head?_itemTokens_append (items : List Json) {t : Token} (ht : ¬ t.IsNumber) :
    ∀ u ∈ (itemTokens items ++ [t]).head?, ¬ u.IsNumber := by
  intro u hu
  cases items with
  | nil =>
      cases hu
      exact ht
  | cons item items =>
      cases hu
      exact id

/-- Further entries and what closes the object start with no number. -/
theorem head?_entryTokens_append (entries : List (Option String × Json)) {t : Token}
    (ht : ¬ t.IsNumber) : ∀ u ∈ (entryTokens entries ++ [t]).head?, ¬ u.IsNumber := by
  intro u hu
  cases entries with
  | nil =>
      cases hu
      exact ht
  | cons entry entries =>
      cases hu
      exact id

end Apart

mutual

/-- No two numbers stand side by side in the tokens of a tree. -/
theorem isChain_tokens (json : Json) : json.tokens.IsChain Token.Apart := by
  match json with
  | null | bool _ | number _ | text _ => exact List.isChain_singleton _
  | array [] => exact isChain_cons id (List.isChain_singleton _)
  | object [] => exact isChain_cons id (List.isChain_singleton _)
  | array (item :: items) =>
    rw [tokens, List.append_assoc]
    exact isChain_cons id (isChain_append (isChain_tokens item)
      (isChain_itemTokens items) (head?_itemTokens_append items id))
  | object ((key, value) :: entries) =>
    rw [tokens, List.append_assoc]
    exact isChain_cons id (isChain_cons id (isChain_cons id (isChain_append
      (isChain_tokens value) (isChain_entryTokens entries) (head?_entryTokens_append entries id))))

/-- Nor in the tokens of further items. -/
theorem isChain_itemTokens (items : List Json) :
    (itemTokens items ++ [Token.closeArray]).IsChain Token.Apart := by
  match items with
  | [] => exact List.isChain_singleton _
  | item :: items =>
    rw [itemTokens, List.cons_append, List.append_assoc]
    exact isChain_cons id (isChain_append (isChain_tokens item)
      (isChain_itemTokens items) (head?_itemTokens_append items id))

/-- Nor in the tokens of further entries. -/
theorem isChain_entryTokens (entries : List (Option String × Json)) :
    (entryTokens entries ++ [Token.closeObject]).IsChain Token.Apart := by
  match entries with
  | [] => exact List.isChain_singleton _
  | (key, value) :: entries =>
    rw [entryTokens]
    simp only [List.cons_append, List.append_assoc]
    exact isChain_cons id (isChain_cons id (isChain_cons id (isChain_append
      (isChain_tokens value) (isChain_entryTokens entries) (head?_entryTokens_append entries id))))

end

/-- A tree is read back from its text. -/
theorem read?_write {json : Json} (h : json.Readable) : read? json.write = some json := by
  rw [read?, write, String.toList_ofList, Token.ofChars?_flatMap h (isChain_tokens json)]
  exact ofTokens?_tokens json

/-! ## Readable trees -/

theorem readable_text (s : String) : (text (some s)).Readable := by
  intro t ht
  rw [List.mem_singleton.mp ht]
  exact Option.some_ne_none s

theorem readable_bool (value : Bool) : (bool value).Readable := by
  intro t ht
  rw [List.mem_singleton.mp ht]
  trivial

theorem readable_number {n : Number} (h : n.DigitParts)
    (hread : Number.ofChars? n.chars = some n) : (number n).Readable := by
  intro t ht
  rw [List.mem_singleton.mp ht]
  exact ⟨h, hread⟩

theorem readable_ofInt (n : Int) : (number (.ofInt n)).Readable :=
  readable_number (Number.digitParts_ofInt n) (Number.ofChars?_ofInt n)

theorem readable_null : null.Readable := by
  intro t ht
  rw [List.mem_singleton.mp ht]
  trivial

/-- Further readable items are readable. -/
theorem readable_itemTokens {items : List Json} (h : ∀ item ∈ items, item.Readable) :
    ∀ t ∈ itemTokens items, t.Readable := by
  induction items with
  | nil => exact fun t ht => nomatch ht
  | cons item items ih =>
      obtain ⟨hitem, hitems⟩ := List.forall_mem_cons.mp h
      rw [itemTokens, List.forall_mem_cons, List.forall_mem_append]
      exact ⟨trivial, hitem, ih hitems⟩

/-- Further readable entries are readable. -/
theorem readable_entryTokens {entries : List (Option String × Json)}
    (h : ∀ entry ∈ entries, entry.1 ≠ none ∧ entry.2.Readable) :
    ∀ t ∈ entryTokens entries, t.Readable := by
  induction entries with
  | nil => exact fun t ht => nomatch ht
  | cons entry entries ih =>
      obtain ⟨⟨hkey, hvalue⟩, hentries⟩ := List.forall_mem_cons.mp h
      simp only [entryTokens, List.forall_mem_cons, List.forall_mem_append]
      exact ⟨trivial, hkey, trivial, hvalue, ih hentries⟩

/-- An array of readable items is readable. -/
theorem readable_array {items : List Json} (h : ∀ item ∈ items, item.Readable) :
    (array items).Readable := by
  cases items with
  | nil => exact List.forall_mem_cons.mpr ⟨trivial, List.forall_mem_singleton.mpr trivial⟩
  | cons item items =>
      obtain ⟨hitem, hitems⟩ := List.forall_mem_cons.mp h
      simp only [Readable, tokens, List.forall_mem_cons, List.forall_mem_append]
      exact ⟨trivial, ⟨hitem, readable_itemTokens hitems⟩, trivial, List.forall_mem_nil _⟩

/-- An object of readable entries is readable. -/
theorem readable_object {entries : List (Option String × Json)}
    (h : ∀ entry ∈ entries, entry.1 ≠ none ∧ entry.2.Readable) : (object entries).Readable := by
  cases entries with
  | nil => exact List.forall_mem_cons.mpr ⟨trivial, List.forall_mem_singleton.mpr trivial⟩
  | cons entry entries =>
      obtain ⟨⟨hkey, hvalue⟩, hentries⟩ := List.forall_mem_cons.mp h
      simp only [Readable, tokens, List.forall_mem_cons, List.forall_mem_append]
      exact ⟨trivial, hkey, trivial, ⟨hvalue, readable_entryTokens hentries⟩, trivial,
        List.forall_mem_nil _⟩

end Json

end EntityQuery
