import Mathlib.Data.List.TakeWhile
import MirrorCpp.Spec.Sources

/-!
# Comments and strings of a module (`spec.cpp`)

The scanner behind `import_names` reads a text in turns. A comment or a string that begins where
the scanner is outside of both is a sequence of turns that yields no token and ends outside again,
so the tokens around it are those of the text before and of the text behind.
-/

namespace MirrorCpp.Spec

open Transport

/-! ## Turns of the scanner -/

theorem tokensFrom_enough {fuel depth : Nat} {src : Bytes} (h : src.length ≤ fuel) :
    tokensFrom fuel depth src = tokensFrom src.length depth src := by
  induction h with
  | refl => rfl
  | step h ih => rw [tokensFrom_more h, ih]

/-- The tokens of a text that begins inside `depth` block comments. -/
def scanTokens (depth : Nat) (src : Bytes) : List String := tokensFrom src.length depth src

theorem tokensFrom_eq_scan {fuel depth : Nat} {src : Bytes} (h : src.length ≤ fuel) :
    tokensFrom fuel depth src = scanTokens depth src := tokensFrom_enough h

@[simp] theorem scan_nil (depth : Nat) : scanTokens depth [] = [] := rfl

theorem scan_open (depth : Nat) (cs : Bytes) :
    scanTokens (depth + 1) ('(' :: '*' :: cs) = scanTokens (depth + 2) cs := by
  rw [scanTokens, List.length_cons, tokensFrom]
  exact tokensFrom_eq_scan (by simp)

theorem scan_close (depth : Nat) (cs : Bytes) :
    scanTokens (depth + 1) ('*' :: ')' :: cs) = scanTokens depth cs := by
  rw [scanTokens, List.length_cons, tokensFrom]
  exact tokensFrom_eq_scan (by simp)

theorem scan_inside (depth : Nat) {c : Char} {cs : Bytes}
    (hopen : ∀ cs', c = '(' → cs = '*' :: cs' → False)
    (hclose : ∀ cs', c = '*' → cs = ')' :: cs' → False) :
    scanTokens (depth + 1) (c :: cs) = scanTokens (depth + 1) cs := by
  rw [scanTokens, List.length_cons, tokensFrom]
  · rfl
  · exact hopen
  · exact hclose

theorem scan_line (cs : Bytes) :
    scanTokens 0 ('\\' :: '*' :: cs) = scanTokens 0 (cs.dropWhile (· != '\n')) := by
  have := length_dropWhile_le (· != '\n') cs
  rw [scanTokens, List.length_cons, tokensFrom]
  exact tokensFrom_eq_scan (by simp only [List.length_cons]; omega)

theorem scan_block (cs : Bytes) : scanTokens 0 ('(' :: '*' :: cs) = scanTokens 1 cs := by
  rw [scanTokens, List.length_cons, tokensFrom]
  exact tokensFrom_eq_scan (by simp)

theorem scan_string (cs : Bytes) : scanTokens 0 ('"' :: cs) = scanTokens 0 (afterString cs) := by
  rw [scanTokens, List.length_cons, tokensFrom]
  exact tokensFrom_eq_scan (length_afterString cs)

theorem scan_comma (cs : Bytes) : scanTokens 0 (',' :: cs) = "," :: scanTokens 0 cs := by
  rw [scanTokens, List.length_cons, tokensFrom]
  rfl

theorem scan_char {c : Char} {cs : Bytes} (hline : ∀ cs', c = '\\' → cs = '*' :: cs' → False)
    (hblock : ∀ cs', c = '(' → cs = '*' :: cs' → False) (hstring : c = '"' → False)
    (hcomma : c = ',' → False) :
    scanTokens 0 (c :: cs) =
      if isNameStart c then
        String.ofList (c :: cs.takeWhile isNameChar) :: scanTokens 0 (cs.dropWhile isNameChar)
      else scanTokens 0 cs := by
  rw [scanTokens, List.length_cons, tokensFrom]
  · split
    · rw [tokensFrom_eq_scan (length_dropWhile_le isNameChar cs)]
    · rfl
  all_goals assumption

/-- A character of no meaning to the scanner. -/
def isPlain (c : Char) : Bool :=
  c != '\\' && c != '(' && c != '"' && c != ',' && !isNameStart c

theorem scan_plain {c : Char} {cs : Bytes} (h : isPlain c = true) :
    scanTokens 0 (c :: cs) = scanTokens 0 cs := by
  simp only [isPlain, Bool.and_eq_true, bne_iff_ne, Bool.not_eq_true'] at h
  obtain ⟨⟨⟨⟨hesc, hopen⟩, hquote⟩, hcomma⟩, hname⟩ := h
  rw [scan_char (fun _ he _ => hesc he) (fun _ he _ => hopen he) hquote hcomma, hname]
  rfl

/-! ## Where the scanner ends -/

/-- Behind the opening quote: the text behind the closing one, when there is one. -/
def closedString : Bytes → Option Bytes
  | '\\' :: _ :: cs => closedString cs
  | '"' :: cs => some cs
  | _ :: cs => closedString cs
  | [] => none

/-- The scanner, begun inside `depth` block comments, is outside of comments and strings at the
end of the text. A line comment ends at its newline. The turns are those of `tokensFrom`. -/
def endsFrom : Nat → Nat → Bytes → Bool
  | 0, depth, _ => depth == 0
  | _ + 1, depth, [] => depth == 0
  | fuel + 1, depth + 1, '(' :: '*' :: cs => endsFrom fuel (depth + 2) cs
  | fuel + 1, depth + 1, '*' :: ')' :: cs => endsFrom fuel depth cs
  | fuel + 1, depth + 1, _ :: cs => endsFrom fuel (depth + 1) cs
  | fuel + 1, 0, '\\' :: '*' :: cs =>
    cs.contains '\n' && endsFrom fuel 0 (cs.dropWhile (· != '\n'))
  | fuel + 1, 0, '(' :: '*' :: cs => endsFrom fuel 1 cs
  | fuel + 1, 0, '"' :: cs =>
    match closedString cs with
    | some rest => endsFrom fuel 0 rest
    | none => false
  | fuel + 1, 0, ',' :: cs => endsFrom fuel 0 cs
  | fuel + 1, 0, c :: cs =>
    if isNameStart c then endsFrom fuel 0 (cs.dropWhile isNameChar) else endsFrom fuel 0 cs

/-- The scanner ends at top level. -/
def endsTop (src : Bytes) : Bool := endsFrom src.length 0 src

theorem afterString_closed {cs rest : Bytes} (h : closedString cs = some rest) (b : Bytes) :
    afterString (cs ++ b) = rest ++ b ∧ afterString cs = rest := by
  fun_induction closedString cs with
  | case1 c cs ih => exact ih h
  | case2 cs =>
    cases h
    exact ⟨rfl, rfl⟩
  | case3 c cs hesc hquote ih =>
    have hcs : cs ≠ [] := by
      rintro rfl
      cases h
    obtain ⟨d, cs, rfl⟩ := List.exists_cons_of_ne_nil hcs
    have := ih h
    rw [List.cons_append, afterString, afterString]
    · exact this
    all_goals grind
  | case4 => cases h

/-- A text that neither ends a two-character mark nor continues a name of the text before. -/
def Detached (rest : Bytes) : Prop := ∀ c ∈ rest.head?, c ≠ '*' ∧ isNameChar c = false

/-- A character that begins no mark in front of `cs` begins none in front of more text. -/
theorem no_mark_append {y : Char} {cs rest : Bytes} (h : ∀ cs', cs = y :: cs' → False)
    (hne : cs ≠ []) : ∀ cs', cs ++ rest = y :: cs' → False := by
  obtain ⟨d, ds, rfl⟩ := List.exists_cons_of_ne_nil hne
  rintro cs' ⟨⟩
  exact h ds rfl

theorem no_star_append {cs rest : Bytes} (h : ∀ cs', cs = '*' :: cs' → False)
    (hrest : Detached rest) : ∀ cs', cs ++ rest = '*' :: cs' → False := by
  by_cases hcs : cs = []
  · rintro cs' he
    rw [hcs, List.nil_append] at he
    exact (hrest '*' (by rw [he, List.head?_cons, Option.mem_some])).1 rfl
  · exact no_mark_append h hcs

theorem endsFrom_nil (fuel depth : Nat) : endsFrom fuel depth [] = (depth == 0) := by
  cases fuel <;> cases depth <;> rfl

theorem dropWhile_name_append (cs : Bytes) {rest : Bytes} (h : Detached rest) :
    (cs ++ rest).dropWhile isNameChar = cs.dropWhile isNameChar ++ rest ∧
      (cs ++ rest).takeWhile isNameChar = cs.takeWhile isNameChar := by
  induction cs with
  | nil =>
    cases rest with
    | nil => exact ⟨rfl, rfl⟩
    | cons c rest =>
      have hc := (h c rfl).2
      simp [hc]
  | cons c cs ih =>
    by_cases hc : isNameChar c = true
    · simp [hc, ih]
    · simp [hc]

theorem dropWhile_line_append {cs : Bytes} (h : '\n' ∈ cs) (rest : Bytes) :
    (cs ++ rest).dropWhile (· != '\n') = cs.dropWhile (· != '\n') ++ rest := by
  induction cs with
  | nil => cases h
  | cons c cs ih =>
    by_cases hc : c = '\n'
    · simp [hc]
    · have hmem : '\n' ∈ cs := by
        rw [List.mem_cons] at h
        exact h.resolve_left fun he => hc he.symm
      simp [hc, ih hmem]

/-- The turns over a text that ends at top level are the same in front of another text. -/
theorem scan_append {fuel depth : Nat} {a : Bytes} (hlen : a.length ≤ fuel)
    (hends : endsFrom fuel depth a = true) {rest : Bytes} (hrest : Detached rest) :
    scanTokens depth (a ++ rest) = scanTokens depth a ++ scanTokens 0 rest := by
  fun_induction endsFrom fuel depth a with
  | case1 depth a =>
    rw [List.length_eq_zero_iff.mp (Nat.le_zero.mp hlen), beq_iff_eq.mp hends]
    rfl
  | case2 fuel depth =>
    rw [beq_iff_eq.mp hends]
    rfl
  | case3 fuel depth cs ih =>
    simp only [List.length_cons] at hlen
    rw [List.cons_append, List.cons_append, scan_open, scan_open, ih (by omega) hends]
  | case4 fuel depth cs ih =>
    simp only [List.length_cons] at hlen
    rw [List.cons_append, List.cons_append, scan_close, scan_close, ih (by omega) hends]
  | case5 fuel depth c cs hopen hclose ih =>
    simp only [List.length_cons] at hlen
    have hcs : cs ≠ [] := by
      rintro rfl
      rw [endsFrom_nil] at hends
      cases hends
    rw [List.cons_append, scan_inside, scan_inside, ih (by omega) hends]
    · exact hopen
    · exact hclose
    · exact fun cs' hc => no_mark_append (fun cs' => hopen cs' hc) hcs cs'
    · exact fun cs' hc => no_mark_append (fun cs' => hclose cs' hc) hcs cs'
  | case6 fuel cs ih =>
    simp only [List.length_cons] at hlen
    rw [Bool.and_eq_true, List.contains_iff_mem] at hends
    have := length_dropWhile_le (· != '\n') cs
    rw [List.cons_append, List.cons_append, scan_line, scan_line, dropWhile_line_append hends.1,
      ih (by omega) hends.2]
  | case7 fuel cs ih =>
    simp only [List.length_cons] at hlen
    rw [List.cons_append, List.cons_append, scan_block, scan_block, ih (by omega) hends]
  | case8 fuel cs rest' hstring ih =>
    simp only [List.length_cons] at hlen
    have hafter := afterString_closed hstring rest
    have := length_afterString cs
    rw [hafter.2] at this
    rw [List.cons_append, scan_string, scan_string, hafter.1, hafter.2, ih (by omega) hends]
  | case9 => cases hends
  | case10 fuel cs ih =>
    simp only [List.length_cons] at hlen
    rw [List.cons_append, scan_comma, scan_comma, ih (by omega) hends, List.cons_append]
  | case11 fuel c cs hline hblock hstring hcomma hname ih =>
    simp only [List.length_cons] at hlen
    have := length_dropWhile_le isNameChar cs
    have hdrop := dropWhile_name_append cs hrest
    rw [List.cons_append, scan_char, scan_char hline hblock hstring hcomma, if_pos hname,
      if_pos hname, hdrop.1, hdrop.2, ih (by omega) hends, List.cons_append]
    · exact fun cs' hc => no_star_append (fun cs' => hline cs' hc) hrest cs'
    · exact fun cs' hc => no_star_append (fun cs' => hblock cs' hc) hrest cs'
    · exact hstring
    · exact hcomma
  | case12 fuel c cs hline hblock hstring hcomma hname ih =>
    simp only [List.length_cons] at hlen
    rw [List.cons_append, scan_char, scan_char hline hblock hstring hcomma, if_neg hname,
      if_neg hname, ih (by omega) hends]
    · exact fun cs' hc => no_star_append (fun cs' => hline cs' hc) hrest cs'
    · exact fun cs' hc => no_star_append (fun cs' => hblock cs' hc) hrest cs'
    · exact hstring
    · exact hcomma

/-! ## Comments and strings -/

/-- The text behind a `(*` up to the `*)` that belongs to it, other comments nested in it. -/
inductive BlockBody : Bytes → Prop
  | close : BlockBody ['*', ')']
  | nest {x y : Bytes} (hx : BlockBody x) (hy : BlockBody y) : BlockBody ('(' :: '*' :: (x ++ y))
  | char {c : Char} {cs : Bytes} (hopen : ¬['(', '*'] <+: c :: cs)
    (hclose : ¬['*', ')'] <+: c :: cs) (h : BlockBody cs) : BlockBody (c :: cs)

/-- The text behind an opening quote up to the closing one; a backslash takes the next character
with it. -/
inductive StringBody : Bytes → Prop
  | close : StringBody ['"']
  | escape (c : Char) {cs : Bytes} (h : StringBody cs) : StringBody ('\\' :: c :: cs)
  | char {c : Char} {cs : Bytes} (hesc : c ≠ '\\') (hquote : c ≠ '"') (h : StringBody cs) :
    StringBody (c :: cs)

/-- A balanced block comment, a line comment with its newline, or a closed string. -/
inductive Silent : Bytes → Prop
  | block {x : Bytes} (h : BlockBody x) : Silent ('(' :: '*' :: x)
  | line {x : Bytes} (h : '\n' ∉ x) : Silent ('\\' :: '*' :: (x ++ ['\n']))
  | string {x : Bytes} (h : StringBody x) : Silent ('"' :: x)

theorem BlockBody.ne_nil {x : Bytes} (h : BlockBody x) : x ≠ [] := by
  cases h <;> exact List.cons_ne_nil _ _

theorem scan_blockBody {x : Bytes} (h : BlockBody x) (depth : Nat) (b : Bytes) :
    scanTokens (depth + 1) (x ++ b) = scanTokens depth b := by
  induction h generalizing depth b with
  | close => exact scan_close depth b
  | nest hx hy ihx ihy =>
    rw [List.cons_append, List.cons_append, List.append_assoc, scan_open, ihx, ihy]
  | @char c cs hopen hclose h ih =>
    rw [List.cons_append, scan_inside, ih]
    · rintro cs' rfl
      exact no_mark_append (fun cs' he => hopen ⟨cs', by rw [he]; rfl⟩) h.ne_nil cs'
    · rintro cs' rfl
      exact no_mark_append (fun cs' he => hclose ⟨cs', by rw [he]; rfl⟩) h.ne_nil cs'

theorem afterString_stringBody {x : Bytes} (h : StringBody x) (b : Bytes) :
    afterString (x ++ b) = b := by
  induction h with
  | close => rfl
  | escape c h ih => exact ih
  | @char c cs hesc hquote h ih =>
    rw [List.cons_append, afterString, ih]
    · rintro _ _ rfl
      exact fun _ => hesc rfl
    · exact hquote

/-- A comment or a string yields no token. -/
theorem scan_silent {c : Bytes} (h : Silent c) (b : Bytes) :
    scanTokens 0 (c ++ b) = scanTokens 0 b := by
  cases h with
  | block h => rw [List.cons_append, List.cons_append, scan_block, scan_blockBody h]
  | @line x h =>
    have hx : ∀ c ∈ x, (c != '\n') = true := fun c hc => by
      rw [bne_iff_ne]
      rintro rfl
      exact h hc
    rw [List.cons_append, List.cons_append, scan_line, List.append_assoc,
      List.dropWhile_append_of_pos hx]
    exact scan_plain (by decide)
  | string h => rw [List.cons_append, scan_string, afterString_stringBody h]

theorem Silent.detached {c : Bytes} (h : Silent c) (b : Bytes) : Detached (c ++ b) := by
  cases h <;> (rintro _ ⟨⟩; decide)

/-! ## Where a token stands -/

/-- The scanner, begun inside `depth` block comments, ends `p` outside of comments and strings. -/
def EndsAt (depth : Nat) (p : Bytes) : Prop := ∀ n, p.length ≤ n → endsFrom n depth p = true

theorem endsAt_nil : EndsAt 0 [] := fun n _ => endsFrom_nil n 0

theorem EndsAt.cons {depth depth' : Nat} {p p' : Bytes} (h : EndsAt depth p)
    (hlen : p.length < p'.length)
    (hstep : ∀ n, endsFrom n depth p = true → endsFrom (n + 1) depth' p' = true) :
    EndsAt depth' p' := by
  rintro (_ | n) hn
  · omega
  · exact hstep n (h n (by omega))

theorem closedString_stringBody {x : Bytes} (h : StringBody x) (b : Bytes) :
    closedString (x ++ b) = some b := by
  induction h with
  | close => rfl
  | escape c h ih => exact ih
  | @char c cs hesc hquote h ih =>
    rw [List.cons_append, closedString, ih]
    · rintro _ _ rfl
      exact fun _ => hesc rfl
    · exact hquote

/-- What is left behind a string that is not the end of the text. -/
theorem stringBody_of_afterString {cs : Bytes} (h : afterString cs ≠ []) :
    ∃ x, StringBody x ∧ cs = x ++ afterString cs := by
  fun_induction afterString cs with
  | case1 c cs ih =>
    obtain ⟨x, hx, he⟩ := ih h
    exact ⟨_, .escape c hx, by rw [List.cons_append, List.cons_append, ← he]⟩
  | case2 cs => exact ⟨_, .close, rfl⟩
  | case3 c cs hesc hquote ih =>
    obtain ⟨x, hx, he⟩ := ih h
    refine ⟨_, .char ?_ hquote hx, by rw [List.cons_append, ← he]⟩
    rintro rfl
    obtain ⟨d, ds, rfl⟩ : ∃ d ds, cs = d :: ds := by
      obtain _ | ⟨d, ds⟩ := cs
      · exact absurd rfl h
      · exact ⟨d, ds, rfl⟩
    exact hesc d ds rfl rfl
  | case4 => exact absurd rfl h

theorem not_mem_name {c : Char} (h : isNameStart c = true) :
    c ≠ '\\' ∧ c ≠ '(' ∧ c ≠ '"' ∧ c ≠ ',' ∧ c ≠ '\n' := by
  refine ⟨?_, ?_, ?_, ?_, ?_⟩ <;> (rintro rfl; revert h; decide)

/-- A token begins with a letter, an underscore or is a comma. -/
theorem token_head {fuel depth : Nat} {src : Bytes} {name : String}
    (h : name ∈ tokensFrom fuel depth src) :
    ∃ c cs, name.toList = c :: cs ∧ (isNameStart c = true ∨ c = ',') := by
  fun_induction tokensFrom fuel depth src with
  | case1 | case2 => cases h
  | case9 fuel cs ih =>
    rw [List.mem_cons] at h
    obtain rfl | h := h
    · exact ⟨',', [], rfl, .inr rfl⟩
    · exact ih h
  | case10 fuel c cs _ _ _ _ hname ih =>
    rw [List.mem_cons] at h
    obtain rfl | h := h
    · exact ⟨c, _, String.toList_ofList, .inl hname⟩
    · exact ih h
  | _ => rename_i ih; exact ih h

theorem dropWhile_head {q : Char → Bool} {cs r : Bytes} {d : Char}
    (h : cs.dropWhile q = d :: r) : q d = false := by
  have hd := List.head?_dropWhile_not q cs
  rw [h] at hd
  exact hd

/-- What `dropWhile` leaves, cut off behind `p`, is what it leaves of the text cut off there. -/
theorem dropWhile_cut {q : Char → Bool} {cs p r : Bytes} (h : cs.dropWhile q = p ++ r) :
    (cs.takeWhile q ++ p).dropWhile q = p := by
  rw [List.dropWhile_append_of_pos fun c hc => List.mem_takeWhile_imp hc]
  cases p with
  | nil => rfl
  | cons d p =>
    rw [List.dropWhile_cons_of_neg (by rw [dropWhile_head h]; exact Bool.false_ne_true)]

/-- Every token stands in the text at a place that the scanner reaches at top level. -/
theorem token_outside {fuel depth : Nat} {src : Bytes} {name : String}
    (h : name ∈ tokensFrom fuel depth src) :
    ∃ p s, src = p ++ name.toList ++ s ∧ EndsAt depth p := by
  have hhead := token_head h
  fun_induction tokensFrom fuel depth src with
  | case1 | case2 => cases h
  | case3 fuel depth cs ih | case4 fuel depth cs ih | case7 fuel cs ih =>
    obtain ⟨p, s, rfl, hp⟩ := ih h
    exact ⟨_ :: _ :: p, s, rfl, hp.cons (by simp only [List.length_cons]; omega) fun n hn => hn⟩
  | case5 fuel depth c cs hopen hclose ih =>
    obtain ⟨p, s, rfl, hp⟩ := ih h
    refine ⟨c :: p, s, rfl, hp.cons (Nat.lt_succ_self _) fun n hn => ?_⟩
    rw [endsFrom, hn]
    · rintro cs' rfl rfl
      exact hopen _ rfl rfl
    · rintro cs' rfl rfl
      exact hclose _ rfl rfl
  | case6 fuel cs ih =>
    obtain ⟨p, s, he, hp⟩ := ih h
    have hp0 : p ≠ [] := by
      rintro rfl
      obtain ⟨c, cs', hname, hc⟩ := hhead
      rw [hname, List.nil_append, List.cons_append] at he
      have hnl := dropWhile_head he
      rw [bne_eq_false_iff_eq] at hnl
      subst hnl
      revert hc
      decide
    obtain ⟨d, ds, rfl⟩ := List.exists_cons_of_ne_nil hp0
    rw [List.append_assoc] at he
    have hnl := dropWhile_head he
    rw [bne_eq_false_iff_eq] at hnl
    refine ⟨'\\' :: '*' :: (cs.takeWhile (· != '\n') ++ (d :: ds)), s, ?_,
      hp.cons ?_ fun n hn => ?_⟩
    · rw [List.cons_append, List.cons_append, List.cons_append, List.cons_append,
        List.append_assoc, List.append_assoc, ← he, List.takeWhile_append_dropWhile]
    · simp only [List.length_cons, List.length_append]
      omega
    · rw [endsFrom, dropWhile_cut he, hn, Bool.and_true, List.contains_iff_mem, hnl]
      simp
  | case8 fuel cs ih =>
    obtain ⟨p, s, he, hp⟩ := ih h
    have hne : afterString cs ≠ [] := by
      obtain ⟨c, cs, hname, -⟩ := hhead
      simp [he, hname]
    obtain ⟨x, hx, hcs⟩ := stringBody_of_afterString hne
    refine ⟨'"' :: (x ++ p), s, ?_, hp.cons ?_ fun n hn => ?_⟩
    · rw [hcs, he]
      simp
    · simp only [List.length_cons, List.length_append]
      omega
    · rw [endsFrom, closedString_stringBody hx]
      exact hn
  | case9 fuel cs ih =>
    rw [List.mem_cons] at h
    obtain rfl | h := h
    · exact ⟨[], cs, rfl, endsAt_nil⟩
    · obtain ⟨p, s, rfl, hp⟩ := ih h
      exact ⟨',' :: p, s, rfl, hp.cons (Nat.lt_succ_self _) fun n hn => hn⟩
  | case10 fuel c cs hline hblock hstring hcomma hname ih =>
    rw [List.mem_cons] at h
    obtain rfl | h := h
    · refine ⟨[], cs.dropWhile isNameChar, ?_, endsAt_nil⟩
      rw [String.toList_ofList, List.nil_append, List.cons_append, List.takeWhile_append_dropWhile]
    · obtain ⟨p, s, he, hp⟩ := ih h
      obtain ⟨hesc, hopen, hquote, hcomma, -⟩ := not_mem_name hname
      rw [List.append_assoc] at he
      refine ⟨c :: (cs.takeWhile isNameChar ++ p), s, ?_, hp.cons ?_ fun n hn => ?_⟩
      · rw [List.cons_append, List.cons_append, List.append_assoc, List.append_assoc, ← he,
          List.takeWhile_append_dropWhile]
      · simp only [List.length_cons, List.length_append]
        omega
      · rw [endsFrom, if_pos hname, dropWhile_cut he, hn]
        · exact fun _ hc => absurd hc hesc
        · exact fun _ hc => absurd hc hopen
        · exact hquote
        · exact hcomma
  | case11 fuel c cs hline hblock hstring hcomma hname ih =>
    obtain ⟨p, s, rfl, hp⟩ := ih h
    refine ⟨c :: p, s, rfl, hp.cons (Nat.lt_succ_self _) fun n hn => ?_⟩
    rw [endsFrom, if_neg hname, hn]
    · rintro cs' rfl rfl
      exact hline _ rfl rfl
    · rintro cs' rfl rfl
      exact hblock _ rfl rfl
    · exact hstring
    · exact hcomma

/-! ## Imports -/

theorem mem_extendsTail (tokens : List String) :
    (∀ name ∈ (extendsTail tokens).1, name ∈ tokens) ∧
      ∀ token ∈ (extendsTail tokens).2, token ∈ tokens := by
  fun_induction extendsTail tokens with
  | case1 sep name tokens h names rest he ih =>
    rw [he] at ih
    grind
  | case2 | case3 => simp

/-- What is imported is a token. -/
theorem mem_importsFrom {fuel : Nat} {tokens : List String} {name : String}
    (h : name ∈ importsFrom fuel tokens) : name ∈ tokens := by
  fun_induction importsFrom fuel tokens with
  | case1 | case2 | case3 | case6 => cases h
  | case4 fuel rest ih | case8 fuel token tokens _ _ ih => exact List.mem_cons_of_mem _ (ih h)
  | case5 fuel first rest hn names rest' he ih =>
    have htail := mem_extendsTail rest
    rw [he] at htail
    simp only [List.mem_cons, List.mem_append] at h ⊢
    obtain rfl | h | h := h
    · exact .inr (.inl rfl)
    · exact .inr (.inr (htail.1 name h))
    · exact .inr (.inr (htail.2 name (ih h)))
  | case7 fuel first rest hne ih =>
    simp only [List.mem_cons] at h ⊢
    obtain rfl | h := h
    · exact .inr (.inl rfl)
    · exact .inr (.inr (ih h))

/-- Behind a text that ends at top level, a comment or a string yields no token and changes none
around it: the imports are those with a blank in its place, and each of them is named outside of
comments and strings. -/
theorem imports_ignore_silent {a c : Bytes} (ha : endsTop a = true) (hc : Silent c) (b : Bytes) :
    dependencyTokens (a ++ c ++ b) = dependencyTokens a ++ dependencyTokens b ∧
    importNames (a ++ c ++ b) = importNames (a ++ ' ' :: b) ∧
    ∀ name ∈ importNames (a ++ c ++ b),
      (name ∈ dependencyTokens a ∨ name ∈ dependencyTokens b) ∧
      ∃ p s, a ++ c ++ b = p ++ name.toList ++ s ∧ endsTop p = true := by
  have htokens : dependencyTokens (a ++ c ++ b) = dependencyTokens a ++ dependencyTokens b := by
    rw [List.append_assoc]
    exact (scan_append (Nat.le_refl _) ha (hc.detached b)).trans (by rw [scan_silent hc]; rfl)
  have hblank : dependencyTokens (a ++ ' ' :: b) = dependencyTokens a ++ dependencyTokens b := by
    have hspace : Detached (' ' :: b) := by
      rintro _ ⟨⟩
      decide
    exact (scan_append (Nat.le_refl _) ha hspace).trans (by rw [scan_plain (by decide)]; rfl)
  refine ⟨htokens, ?_, fun name hname => ⟨?_, ?_⟩⟩
  · rw [importNames, importNames, htokens, hblank]
  · rw [← List.mem_append, ← htokens]
    exact mem_importsFrom hname
  · obtain ⟨p, s, he, hp⟩ := token_outside (mem_importsFrom hname)
    exact ⟨p, s, he, hp p.length (Nat.le_refl _)⟩

/-- `(*B(*C*)*)`. -/
def nestedComment : Bytes := ['(', '*', 'B', '(', '*', 'C', '*', ')', '*', ')']

theorem silent_nestedComment : Silent nestedComment :=
  have hC : BlockBody ['C', '*', ')'] := .char (by decide) (by decide) .close
  .block (.char (by decide) (by decide) (.nest hC .close))

theorem imports_ignore_silent_nested :
    importNames ("EXTENDS A".toList ++ nestedComment ++ ", D".toList) = ["A", "D"] :=
  (imports_ignore_silent (by decide) silent_nestedComment ", D".toList).2.1.trans (by decide)

end MirrorCpp.Spec
