/-
  FlowCheck.Proofs.Printing — the text of a value reads back as that value.

  Laid out or compact, at any depth of nesting (`ofText_render`), for every value that text can give
  in full (`Proper`). Reading is in two steps, and so is the proof. A text has its tokens whatever
  follows it (`Lexes`), provided that a number ends with it: `1` is a token of `1,` but not of
  `12`. And the tokens of a value take the reader past that value, whatever is open around it
  (`Reads`).
-/

import FlowCheck.Json.Document
import FlowCheck.Json.Text
import Mathlib.Data.List.TakeDrop
import Mathlib.Data.Option.Basic

namespace FlowCheck.Json

/-- A value that text can give in full: nothing breaks off in it, every member has a name, and every
number is an integer. -/
inductive Proper : Json → Prop
  | null : Proper .null
  | bool (b : Bool) : Proper (.bool b)
  | number (n : Int) : Proper (.number n)
  | string (s : String) : Proper (.string s)
  | list {items : List Json} (h : ∀ v ∈ items, Proper v) : Proper (.list items)
  | record {members : List (String × Json)} (h : ∀ m ∈ members, Proper m.2) : Proper (.record members)

/-! ## Numbers -/

def EndsNumber (text : List Char) : Prop :=
  ∀ c ∈ text.head?, c.isDigit = false ∧ c ≠ '.' ∧ c ≠ 'e' ∧ c ≠ 'E'

theorem isDigit_of_mem_digits {n : Nat} {c : Char} (h : c ∈ Nat.toDigits 10 n) : c.isDigit = true :=
  Nat.isDigit_of_mem_toDigits (by decide) (by decide) h

section

variable {rest : List Char} (ends : EndsNumber rest)

include ends

theorem fraction?_of_ends : fraction? rest = some (false, rest) := by
  cases rest with
  | nil => rfl
  | cons c rest =>
    obtain ⟨-, point, -, -⟩ := ends c rfl
    rw [fraction?]
    exact fun _ e => point (List.cons.inj e).1

theorem exponent?_of_ends : exponent? rest = some (false, rest) := by
  cases rest with
  | nil => rfl
  | cons c rest =>
    obtain ⟨-, -, lower, upper⟩ := ends c rfl
    simp [exponent?, lower, upper]

theorem span_digits (n : Nat) : (Nat.toDigits 10 n ++ rest).span Char.isDigit = (Nat.toDigits 10 n, rest) := by
  have digits : ∀ c ∈ Nat.toDigits 10 n, c.isDigit = true := fun c => isDigit_of_mem_digits
  rw [List.span_eq_takeWhile_dropWhile, List.takeWhile_append_of_pos digits, List.dropWhile_append_of_pos digits]
  cases rest with
  | nil => simp
  | cons c rest => simp [(ends c rfl).1]

end

/-- Only zero starts with the digit zero. -/
theorem head?_digits {n : Nat} (positive : 0 < n) : (Nat.toDigits 10 n).head? ≠ some '0' := by
  induction n using Nat.strongRecOn with
  | ind n ih =>
    rcases Nat.lt_or_ge n 10 with small | large
    · rw [Nat.toDigits_of_lt_base small]
      have first : ∀ m < 10, 0 < m → [m.digitChar].head? ≠ some '0' := by decide
      exact first n small positive
    · have more : (Nat.toDigits 10 (n / 10)).head? ≠ some '0' := ih (n / 10) (by omega) (by omega)
      rw [Nat.toDigits_of_base_le (by decide) large, List.head?_append]
      cases h : (Nat.toDigits 10 (n / 10)).head? with
      | none => exact absurd (List.head?_eq_none_iff.mp h) Nat.toDigits_ne_nil
      | some c => rwa [h] at more

theorem length_digits {n : Nat} (zero : (Nat.toDigits 10 n).head? = some '0') : (Nat.toDigits 10 n).length = 1 := by
  rw [Nat.eq_zero_of_not_pos fun positive => head?_digits positive zero]
  rfl

theorem digitsValue_digits (n : Nat) : digitsValue (Nat.toDigits 10 n) = n := Nat.ofDigitChars_ten_toDigits

theorem exists_digits (n : Nat) : ∃ d ds, Nat.toDigits 10 n = d :: ds ∧ d.isDigit = true := by
  cases h : Nat.toDigits 10 n with
  | nil => exact absurd h Nat.toDigits_ne_nil
  | cons d ds =>
    have first : d ∈ Nat.toDigits 10 n := by rw [h]; exact List.mem_cons_self
    exact ⟨d, ds, rfl, isDigit_of_mem_digits first⟩

theorem toList_ofNat (n : Nat) : (toString (Int.ofNat n)).toList = Nat.toDigits 10 n := by
  show (Nat.repr n).toList = _
  rw [Nat.repr_eq_ofList_toDigits, String.toList_ofList]

theorem toList_negSucc (n : Nat) : (toString (Int.negSucc n)).toList = '-' :: Nat.toDigits 10 (n + 1) := by
  show ("-" ++ Nat.repr (n + 1)).toList = _
  rw [Nat.repr_eq_ofList_toDigits, String.toList_append, String.toList_ofList]
  simp

theorem exists_start (n : Int) : ∃ c l, (toString n).toList = c :: l ∧ (c.isDigit = true ∨ c = '-') := by
  cases n with
  | ofNat n =>
    obtain ⟨d, ds, digits, digit⟩ := exists_digits n
    exact ⟨d, ds, (toList_ofNat n).trans digits, .inl digit⟩
  | negSucc n => exact ⟨'-', _, toList_negSucc n, .inr rfl⟩

/-- Digits pass the rule about leading zeros. -/
theorem guard_digits (n : Nat) :
    guard (Nat.toDigits 10 n ≠ [] ∧ ((Nat.toDigits 10 n).head? = some '0' → (Nat.toDigits 10 n).length = 1)) = some () :=
  if_pos ⟨Nat.toDigits_ne_nil, length_digits⟩

theorem number?_toString (n : Int) {rest : List Char} (ends : EndsNumber rest) :
    number? ((toString n).toList ++ rest) = some (.number n, rest) := by
  cases n with
  | ofNat n =>
    rw [toList_ofNat, number?]
    · rw [span_digits ends]
      show Option.bind (guard _) _ = _
      rw [guard_digits, fraction?_of_ends ends, digitsValue_digits]
      show (exponent? rest).bind _ = _
      rw [exponent?_of_ends ends]
      rfl
    · intro text e
      obtain ⟨d, ds, digits, digit⟩ := exists_digits n
      rw [digits] at e
      rw [(List.cons.inj e).1] at digit
      cases digit
  | negSucc n =>
    rw [toList_negSucc, List.cons_append, number?, span_digits ends]
    show Option.bind (guard _) _ = _
    rw [guard_digits, fraction?_of_ends ends, digitsValue_digits]
    show (exponent? rest).bind _ = _
    rw [exponent?_of_ends ends]
    rfl

/-! ## Strings -/

theorem hexDigit?_digitChar : ∀ n < 16, hexDigit? n.digitChar = some n := by
  decide

theorem hexValue?_hexByte {n : Nat} (small : n < 256) : hexValue? ('0' :: '0' :: (hexByte n).toList) = some n := by
  have high : hexDigit? (n / 16).digitChar = some (n / 16) := hexDigit?_digitChar _ (by omega)
  have low : hexDigit? (n % 16).digitChar = some (n % 16) := hexDigit?_digitChar _ (by omega)
  have zero : hexDigit? '0' = some 0 := rfl
  simp only [hexValue?, hexByte, String.toList_ofList, List.foldlM_cons, List.foldlM_nil, zero, high, low,
    Option.map_some, Option.bind_eq_bind, Option.bind_some, Option.pure_def]
  congr 1
  omega

/-- A character as it is written is read as one piece, and the piece stands for the character. -/
theorem exists_piece (c : Char) : ∃ p : Piece,
    (∀ done rest, pieces? done ((escapeChar c).toList ++ rest) = pieces? (p :: done) rest) ∧
      ∀ ps, characters? (p :: ps) = (characters? ps).map (c :: ·) := by
  unfold escapeChar
  split
  · exact ⟨.char _, fun _ _ => rfl, fun _ => rfl⟩
  · exact ⟨.char _, fun _ _ => rfl, fun _ => rfl⟩
  · exact ⟨.char _, fun _ _ => rfl, fun _ => rfl⟩
  · exact ⟨.char _, fun _ _ => rfl, fun _ => rfl⟩
  · exact ⟨.char _, fun _ _ => rfl, fun _ => rfl⟩
  · exact ⟨.char _, fun _ _ => rfl, fun _ => rfl⟩
  · exact ⟨.char _, fun _ _ => rfl, fun _ => rfl⟩
  · rename_i quote backslash _ _ _ _ _
    split
    · rename_i control
      refine ⟨.unit c.toNat, fun done rest => ?_, fun ps => ?_⟩
      · have hex := hexValue?_hexByte (n := c.toNat) (by omega)
        have text : ("\\u00" ++ hexByte c.toNat).toList = '\\' :: 'u' :: '0' :: '0' :: (hexByte c.toNat).toList := by
          rw [String.toList_append]
          rfl
        rw [text]
        rw [hexByte, String.toList_ofList] at hex ⊢
        simp only [List.cons_append, List.nil_append]
        rw [pieces?, hex]
      · have high : isHighSurrogate c.toNat = false := by simp [isHighSurrogate]; omega
        have low : isLowSurrogate c.toNat = false := by simp [isLowSurrogate]; omega
        have back : Char.ofNat c.toNat = c := Char.ofNat_toNat c
        cases ps with
        | nil => simp [characters?, high, low, back]
        | cons p ps => cases p <;> simp [characters?, high, low, back]
    · rename_i plain
      refine ⟨.char c, fun done rest => ?_, fun _ => rfl⟩
      rw [Char.toString_eq_singleton, String.toList_singleton, List.singleton_append, pieces?]
      · rw [if_neg (by simpa [plain] using backslash)]
      · exact quote
      · exact fun _ _ _ _ _ e _ => backslash e
      · exact fun _ _ e _ => backslash e

def escaped (l : List Char) : List Char := l.flatMap fun c => (escapeChar c).toList

theorem toList_quoted (s : String) : (quoted s).toList = '"' :: (escaped s.toList ++ ['"']) := by
  have body : ∀ (l : List Char) (done : String),
      (l.foldl (fun done c => done ++ escapeChar c) done).toList = done.toList ++ escaped l := fun l => by
    induction l with
    | nil => exact fun _ => (List.append_nil _).symm
    | cons c l ih =>
      intro done
      rw [List.foldl_cons, ih, String.toList_append, escaped, escaped, List.flatMap_cons, List.append_assoc]
  rw [quoted, String.toList_append, String.toList_append, String.foldl_eq_foldl_toList, body]
  rfl

theorem exists_pieces (l : List Char) : ∃ ps : List Piece,
    (∀ done rest, pieces? done (escaped l ++ rest) = pieces? (ps.reverse ++ done) rest) ∧
      characters? ps = some l := by
  induction l with
  | nil => exact ⟨[], fun _ _ => rfl, rfl⟩
  | cons c l ih =>
    obtain ⟨ps, read, written⟩ := ih
    obtain ⟨p, one, same⟩ := exists_piece c
    refine ⟨p :: ps, fun done rest => ?_, by rw [same, written]; rfl⟩
    rw [escaped, List.flatMap_cons, ← escaped, List.append_assoc, one, read, List.reverse_cons, List.append_assoc]
    rfl

theorem string?_escaped (l rest : List Char) :
    string? (escaped l ++ '"' :: rest) = some (.atom (.string (String.ofList l)), rest) := by
  obtain ⟨ps, read, written⟩ := exists_pieces l
  rw [string?, read, List.append_nil, pieces?, List.reverse_reverse, Option.map_some]
  simp only [written]

/-! ## Tokens -/

theorem token?_number {c : Char} (start : c.isDigit = true ∨ c = '-') (text : List Char) :
    token? (c :: text) = (number? (c :: text)).map fun (v, rest) => (.atom v, rest) := by
  unfold token?
  split
  all_goals first
    | rfl
    | rename_i e
      obtain ⟨rfl, -⟩ := List.cons.inj e
      exact absurd start (by decide)

theorem isBlank_cases {c : Char} (blank : isBlank c = true) : c = ' ' ∨ c = '\t' ∨ c = '\n' ∨ c = '\r' := by
  simpa [isBlank, or_assoc] using blank

theorem tokensWithin_blanks {blanks : List Char} (blank : ∀ c ∈ blanks, isBlank c = true) (fuel : Nat)
    (text : List Char) :
    tokensWithin fuel (blanks ++ text) = tokensWithin fuel text := by
  unfold tokensWithin
  rw [List.dropWhile_append_of_pos blank]

theorem tokensWithin_nil (fuel : Nat) : tokensWithin fuel [] = ([], true) := by
  unfold tokensWithin
  rfl

theorem tokensWithin_succ {c : Char} (solid : isBlank c = false) {text rest : List Char} {t : Token}
    (h : token? (c :: text) = some (t, rest)) (fuel : Nat) :
    tokensWithin (fuel + 1) (c :: text) = (t :: (tokensWithin fuel rest).1, (tokensWithin fuel rest).2) := by
  conv_lhs => unfold tokensWithin
  rw [List.dropWhile_cons_of_neg (by simp [solid])]
  simp [h]

theorem EndsNumber.append {a b : List Char} (ha : EndsNumber a) (hb : EndsNumber b) : EndsNumber (a ++ b) := by
  cases a with
  | nil => exact hb
  | cons c a => exact ha

/-- The text has these tokens, whatever follows that does not go on with a number. -/
structure Lexes (text : List Char) (ts : List Token) : Prop where
  short : ts.length ≤ text.length
  tokens : ∀ rest, EndsNumber rest → ∀ fuel, tokensWithin (ts.length + fuel) (text ++ rest) =
    (ts ++ (tokensWithin fuel rest).1, (tokensWithin fuel rest).2)

namespace Lexes

variable {text more : List Char} {ts us : List Token}

theorem nil : Lexes [] [] where
  short := Nat.le_refl 0
  tokens _ _ fuel := by simp

theorem append (ht : Lexes text ts) (hu : Lexes more us) (ends : EndsNumber more) :
    Lexes (text ++ more) (ts ++ us) where
  short := by
    rw [List.length_append, List.length_append]
    exact Nat.add_le_add ht.short hu.short
  tokens rest hr fuel := by
    rw [List.append_assoc, List.length_append, Nat.add_assoc, ht.tokens _ (ends.append hr), hu.tokens rest hr,
      List.append_assoc]

theorem blanks {l : List Char} (blank : ∀ c ∈ l, isBlank c = true) (h : Lexes text ts) :
    Lexes (l ++ text) ts where
  short := by
    rw [List.length_append]
    exact Nat.le_trans h.short (Nat.le_add_left ..)
  tokens rest hr fuel := by rw [List.append_assoc, tokensWithin_blanks blank, h.tokens rest hr]

/-- A text that is one token. -/
theorem atom {c : Char} {t : Token} (solid : isBlank c = false)
    (h : ∀ rest, EndsNumber rest → token? (c :: (text ++ rest)) = some (t, rest)) : Lexes (c :: text) [t] where
  short := Nat.succ_le_succ (Nat.zero_le _)
  tokens rest hr fuel := by
    rw [List.length_singleton, Nat.add_comm, List.cons_append, tokensWithin_succ solid (h rest hr)]
    rfl

/-- A token of one character. -/
theorem mark {c : Char} {t : Token} (solid : isBlank c = false) (h : ∀ rest, token? (c :: rest) = some (t, rest))
    (hm : Lexes more us) : Lexes (c :: more) (t :: us) where
  short := Nat.succ_le_succ hm.short
  tokens rest hr fuel := by
    rw [List.length_cons, Nat.add_right_comm, List.cons_append, tokensWithin_succ solid (h _), hm.tokens rest hr]
    rfl

end Lexes

/-! ## Values -/

def Reads (ts : List Token) (v : Json) : Prop :=
  ∀ e, e = .value ∨ e = .firstItem → ∀ stack rest, read e stack (ts ++ rest) = place v stack rest

def Spells (text : List Char) (v : Json) : Prop := ∃ ts, Lexes text ts ∧ Reads ts v

theorem reads_atom (v : Json) : Reads [.atom v] v := by
  rintro e (rfl | rfl) stack rest <;> rw [List.singleton_append, read]

theorem lineBreak_blank (depth : Option Nat) : ∀ c ∈ (lineBreak depth).toList, isBlank c = true := by
  cases depth with
  | none => exact fun c hc => nomatch hc
  | some n =>
    intro c hc
    simp [lineBreak] at hc
    rcases hc with rfl | ⟨-, rfl⟩ <;> rfl

theorem lexes_quoted (s : String) : Lexes (quoted s).toList [.atom (.string s)] := by
  rw [toList_quoted]
  refine .atom rfl fun rest _ => ?_
  rw [List.append_assoc, List.singleton_append]
  show string? _ = _
  rw [string?_escaped, String.ofList_toList]

theorem spells_number (n : Int) : Spells (toString n).toList (.number n) := by
  refine ⟨[.atom (.number n)], ?_, reads_atom _⟩
  obtain ⟨c, l, text, start⟩ := exists_start n
  have solid : isBlank c = false := by
    rw [← Bool.not_eq_true]
    intro blank
    rcases isBlank_cases blank with rfl | rfl | rfl | rfl <;> exact absurd start (by decide)
  rw [text]
  refine .atom solid fun rest ends => ?_
  rw [token?_number start, ← List.cons_append, ← text, number?_toString n ends]
  rfl

theorem endsNumber_blanks {blanks rest : List Char} (blank : ∀ c ∈ blanks, isBlank c = true)
    (ends : EndsNumber rest) : EndsNumber (blanks ++ rest) := by
  cases blanks with
  | nil => exact ends
  | cons b blanks =>
    intro c hc
    obtain rfl := Option.some.inj hc
    rcases isBlank_cases (blank b List.mem_cons_self) with rfl | rfl | rfl | rfl <;> decide

theorem endsNumber_mark {c : Char} (mark : c.isDigit = false ∧ c ≠ '.' ∧ c ≠ 'e' ∧ c ≠ 'E')
    (rest : List Char) : EndsNumber (c :: rest) := by
  intro d hd
  obtain rfl := Option.some.inj hd
  exact mark

/-- The items of an array, with its closing bracket. -/
theorem spells_items {items : List Json} (depth outer : Option Nat) (filled : items ≠ [])
    (h : ∀ v ∈ items, Spells (render depth v).toList v) :
    ∃ ts, Lexes ((renderItems depth items).toList ++ ((lineBreak outer).toList ++ [']'])) ts ∧
      ∀ e, e = .value ∨ e = .firstItem → ∀ done below rest,
        read e (.array done :: below) (ts ++ rest) = place (.list (done.reverse ++ items)) below rest := by
  induction items with
  | nil => exact absurd rfl filled
  | cons v items ih =>
    obtain ⟨ts, lexed, reads⟩ := h v List.mem_cons_self
    cases items with
    | nil =>
      -- the last item may be a number; its line break or the bracket ends it
      refine ⟨ts ++ [.closeArray], ?_, fun e he done below rest => ?_⟩
      · rw [renderItems, String.toList_append, List.append_assoc]
        refine (lexed.append ?_ ?_).blanks (lineBreak_blank depth)
        · exact (Lexes.mark rfl (fun _ => rfl) .nil).blanks (lineBreak_blank outer)
        · exact endsNumber_blanks (lineBreak_blank outer) (endsNumber_mark (by decide) _)
      · rw [List.append_assoc, reads e he, List.singleton_append, place, read, List.reverse_cons]
    | cons w items =>
      obtain ⟨us, lexed', reads'⟩ := ih (by simp) fun w hw => h w (List.mem_cons_of_mem _ hw)
      refine ⟨ts ++ .comma :: us, ?_, fun e he done below rest => ?_⟩
      · rw [renderItems, String.toList_append, String.toList_append, String.toList_append]
        · simp only [List.append_assoc]
          refine (lexed.append ?_ (endsNumber_mark (by decide) _)).blanks (lineBreak_blank depth)
          exact Lexes.mark rfl (fun _ => rfl) lexed'
        · exact List.cons_ne_nil _ _
      · rw [List.append_assoc, reads e he, List.cons_append, place, read, reads' _ (.inl rfl), List.reverse_cons,
          List.append_assoc]
        rfl

/-- What stands between the name of a member and its value. -/
theorem toList_colon (depth : Option Nat) :
    (if depth.isSome then ": " else ":" : String).toList = ':' :: if depth.isSome then [' '] else [] := by
  cases depth <;> simp

theorem lexes_member {m : String × Json} (depth : Option Nat) {ts : List Token}
    (lexed : Lexes (render depth m.2).toList ts) :
    Lexes (renderMember depth m).toList (.atom (.string m.1) :: .colon :: ts) := by
  rw [renderMember, String.toList_append, String.toList_append, List.append_assoc, toList_colon]
  refine (lexes_quoted m.1).append (.mark rfl (fun _ => rfl) (lexed.blanks ?_)) (endsNumber_mark (by decide) _)
  cases depth <;> simp [isBlank]

/-- The members of an object, with its closing bracket. -/
theorem spells_members {members : List (String × Json)} (depth outer : Option Nat) (filled : members ≠ [])
    (h : ∀ m ∈ members, Spells (render depth m.2).toList m.2) :
    ∃ ts, Lexes ((renderMembers depth members).toList ++ ((lineBreak outer).toList ++ ['\x7d'])) ts ∧
      ∀ done, ∀ e, e = .name done ∨ e = .firstName done → ∀ below rest,
        read e below (ts ++ rest) = place (.record (done.reverse ++ members)) below rest := by
  induction members with
  | nil => exact absurd rfl filled
  | cons m members ih =>
    obtain ⟨ts, lexed, reads⟩ := h m List.mem_cons_self
    have named : ∀ done e, e = .name done ∨ e = .firstName done → ∀ below rest,
        read e below (.atom (.string m.1) :: .colon :: (ts ++ rest)) =
          read .separator (.object (m :: done) (some m.1) :: below) rest := by
      rintro done e (rfl | rfl) below rest <;> rw [read, read, reads _ (.inl rfl), place, memberOf]
    cases members with
    | nil =>
      refine ⟨.atom (.string m.1) :: .colon :: (ts ++ [.closeObject]), ?_, fun done e he below rest => ?_⟩
      · rw [renderMembers, String.toList_append, List.append_assoc]
        refine ((lexes_member depth lexed).append ?_ ?_).blanks (lineBreak_blank depth)
        · exact (Lexes.mark rfl (fun _ => rfl) .nil).blanks (lineBreak_blank outer)
        · exact endsNumber_blanks (lineBreak_blank outer) (endsNumber_mark (by decide) _)
      · rw [List.cons_append, List.cons_append, List.append_assoc, named done e he, List.singleton_append, read,
          List.reverse_cons]
    | cons n members =>
      obtain ⟨us, lexed', reads'⟩ := ih (by simp) fun n hn => h n (List.mem_cons_of_mem _ hn)
      refine ⟨.atom (.string m.1) :: .colon :: (ts ++ .comma :: us), ?_, fun done e he below rest => ?_⟩
      · rw [renderMembers, String.toList_append, String.toList_append, String.toList_append]
        · simp only [List.append_assoc]
          refine ((lexes_member depth lexed).append ?_ (endsNumber_mark (by decide) _)).blanks (lineBreak_blank depth)
          exact Lexes.mark rfl (fun _ => rfl) lexed'
        · exact List.cons_ne_nil _ _
      · rw [List.cons_append, List.cons_append, List.append_assoc, named done e he, List.cons_append, read,
          reads' _ _ (.inl rfl), List.reverse_cons, List.append_assoc]
        rfl

theorem spells_list {items : List Json} (depth : Option Nat)
    (h : ∀ v ∈ items, Spells (render (inner depth) v).toList v) :
    Spells (render depth (.list items)).toList (.list items) := by
  cases items with
  | nil =>
    refine ⟨[.openArray, .closeArray], ?_, ?_⟩
    · rw [render]
      exact .mark rfl (fun _ => rfl) (.mark rfl (fun _ => rfl) .nil)
    · rintro e (rfl | rfl) stack rest <;> rw [List.cons_append, read, List.singleton_append, read] <;> rfl
  | cons v items =>
    obtain ⟨ts, lexed, reads⟩ := spells_items (inner depth) depth (List.cons_ne_nil v items) h
    refine ⟨.openArray :: ts, ?_, ?_⟩
    · rw [render, String.toList_append, String.toList_append, String.toList_append, List.append_assoc,
        List.append_assoc]
      · exact .mark rfl (fun _ => rfl) lexed
      · exact List.cons_ne_nil v items
    · rintro e (rfl | rfl) stack rest <;> rw [List.cons_append, read, reads _ (.inr rfl)] <;> rfl

theorem spells_record {members : List (String × Json)} (depth : Option Nat)
    (h : ∀ m ∈ members, Spells (render (inner depth) m.2).toList m.2) :
    Spells (render depth (.record members)).toList (.record members) := by
  cases members with
  | nil =>
    refine ⟨[.openObject, .closeObject], ?_, ?_⟩
    · rw [render]
      exact .mark rfl (fun _ => rfl) (.mark rfl (fun _ => rfl) .nil)
    · rintro e (rfl | rfl) stack rest <;> rw [List.cons_append, read, List.singleton_append, read] <;> rfl
  | cons m members =>
    obtain ⟨ts, lexed, reads⟩ := spells_members (inner depth) depth (List.cons_ne_nil m members) h
    refine ⟨.openObject :: ts, ?_, ?_⟩
    · rw [render, String.toList_append, String.toList_append, String.toList_append, List.append_assoc,
        List.append_assoc]
      · exact .mark rfl (fun _ => rfl) lexed
      · exact List.cons_ne_nil m members
    · rintro e (rfl | rfl) stack rest <;> rw [List.cons_append, read, reads _ _ (.inr rfl)] <;> rfl

/-- Laid out or compact, at any depth, a value spells itself. -/
theorem spells_render {v : Json} (proper : v.Proper) : ∀ depth, Spells (render depth v).toList v := by
  induction proper with
  | null =>
    intro depth
    exact ⟨_, by rw [render]; exact .atom rfl fun _ _ => rfl, reads_atom _⟩
  | bool b =>
    intro depth
    cases b <;> exact ⟨_, by rw [render]; exact .atom rfl fun _ _ => rfl, reads_atom _⟩
  | number n =>
    intro depth
    rw [render]
    exact spells_number n
  | string s =>
    intro depth
    rw [render]
    exact ⟨_, lexes_quoted s, reads_atom _⟩
  | list _ ih => exact fun depth => spells_list depth fun v hv => ih v hv (inner depth)
  | record _ ih => exact fun depth => spells_record depth fun m hm => ih m hm (inner depth)

/-- The text of a value is read back as the value, to its end. -/
theorem ofText_render {v : Json} (proper : v.Proper) (depth : Option Nat) :
    Document.ofText (render depth v) = ⟨v, true⟩ := by
  obtain ⟨ts, lexed, reads⟩ := spells_render proper depth
  have all : tokens (render depth v) = (ts, true) := by
    obtain ⟨fuel, length⟩ := Nat.exists_eq_add_of_le lexed.short
    have ended := lexed.tokens [] (fun _ h => nomatch h) fuel
    rw [List.append_nil] at ended
    rw [tokens, ← String.length_toList, length, ended, tokensWithin_nil, List.append_nil]
  have value := reads _ (.inl rfl) [] []
  rw [List.append_nil, place] at value
  rw [Document.ofText, all]
  simp [value]

end FlowCheck.Json
