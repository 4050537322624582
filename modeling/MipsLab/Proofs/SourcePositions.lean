import Mathlib.Data.List.DropRight
import MipsLab.Proofs.Tiling

/-!
# Positions in a source text

A source text knows where its lines break, and everything that is asked about a place is worked out
from that. The lines lie one behind the other and cover the text, so every byte is on one of them,
the one that is counted by the newlines before it; what is read back as a line is its text without
the white space around it; and characters are counted on their own, not by lines.

1. `Text.exists_char`, `Text.charIndex_inside`, `Text.charIndex_mono`: the characters that bytes are
   in.
2. `Text.Trimmed`: a text without the white space around it, and what is cut off on both sides.
3. `Source.LineAt`, `Source.rawLine?_eq`: where a line is.
4. `Source.lineOf_eq_count`, `Source.rawLine?_holds_iff`: the line of a byte.
5. `source_positions_consistent`: all of it, for every text.
-/

namespace MipsLab

namespace Text

/-! ## Bytes and characters -/

/-- Every byte of a text is in one of its characters. -/
theorem exists_char {cs : List Char} {i : Nat} (h : i < byteLength cs) :
    ∃ before c behind, cs = before ++ c :: behind ∧ byteLength before ≤ i ∧
      i < byteLength before + c.utf8Size := by
  induction cs generalizing i with
  | nil => exact absurd h (Nat.not_lt_zero i)
  | cons c cs ih =>
    rw [byteLength] at h
    by_cases hc : i < c.utf8Size
    · exact ⟨[], c, cs, rfl, Nat.zero_le i, by rwa [byteLength, Nat.zero_add]⟩
    · obtain ⟨before, d, behind, rfl, hle, hlt⟩ := ih (i := i - c.utf8Size) (by omega)
      refine ⟨c :: before, d, behind, rfl, ?_, ?_⟩
      · rw [byteLength]
        omega
      · rw [byteLength]
        omega

@[simp] theorem takeBytes_zero (cs : List Char) : takeBytes 0 cs = [] := by
  cases cs <;> rfl

theorem takeBytes_cons {i : Nat} (h : 0 < i) (c : Char) (cs : List Char) :
    takeBytes i (c :: cs) = c :: takeBytes (i - c.utf8Size) cs := by
  cases i with
  | zero => exact absurd h (Nat.lt_irrefl 0)
  | succ i => rfl

/-- Every byte of a character has the index of that character. -/
theorem charIndex_inside (before : List Char) {c : Char} (behind : List Char) {i : Nat}
    (hle : byteLength before ≤ i) (hlt : i < byteLength before + c.utf8Size) :
    charIndex (before ++ c :: behind) i = before.length := by
  induction before generalizing i with
  | nil =>
    rw [byteLength, Nat.zero_add] at hlt
    exact if_pos hlt
  | cons d before ih =>
    rw [byteLength] at hle hlt
    rw [List.cons_append, charIndex, if_neg (by omega), ih (by omega) (by omega),
      List.length_cons]

/-- Beyond the end, every byte counts as a character. -/
theorem charIndex_beyond (cs : List Char) (n : Nat) :
    charIndex cs (byteLength cs + n) = cs.length + n := by
  induction cs with
  | nil => rfl
  | cons c cs ih =>
    have hrest : c.utf8Size + byteLength cs + n - c.utf8Size = byteLength cs + n := by omega
    rw [byteLength, charIndex, if_neg (by omega), hrest, ih, List.length_cons]
    omega

theorem charIndex_mono (cs : List Char) {i j : Nat} (h : i ≤ j) :
    charIndex cs i ≤ charIndex cs j := by
  induction cs generalizing i j with
  | nil => exact h
  | cons c cs ih =>
    rw [charIndex, charIndex]
    by_cases hi : i < c.utf8Size
    · rw [if_pos hi]
      exact Nat.zero_le _
    · rw [if_neg hi, if_neg (by omega)]
      exact Nat.succ_le_succ (ih (Nat.sub_le_sub_right h _))

/-! ## White space around a text -/

/-- A text without the white space around it, and what is cut off in front and at the end. If there
is nothing else, all of it is cut off in front. -/
structure Trimmed (text front inner tail : List Char) : Prop where
  parts : text = front ++ (inner ++ tail)
  blankFront : ∀ c ∈ front, isBlank c = true
  blankTail : ∀ c ∈ tail, isBlank c = true
  first : ∀ c ∈ inner.head?, isBlank c = false
  last : ∀ c ∈ inner.getLast?, isBlank c = false
  nothing : inner = [] → tail = []

theorem exists_trimmed (text : List Char) : ∃ front inner tail, Trimmed text front inner tail := by
  have hparts : trimEnd (trimStart text) ++ (trimStart text).rtakeWhile isBlank = trimStart text :=
    List.rdropWhile_append_rtakeWhile
  -- What is left in front starts with something that is not white space.
  have hfirst : ∀ c ∈ (trimStart text).head?, isBlank c = false := by
    intro c hc
    have hhead := List.head?_dropWhile_not isBlank text
    rwa [show (text.dropWhile isBlank).head? = some c from hc] at hhead
  refine ⟨text.takeWhile isBlank, trimEnd (trimStart text), (trimStart text).rtakeWhile isBlank,
    ?_, fun c hc => List.mem_takeWhile_imp hc, fun c hc => List.mem_rtakeWhile_imp hc, ?_, ?_, ?_⟩
  · rw [hparts]
    exact List.takeWhile_append_dropWhile.symm
  · intro c hc
    refine hfirst c ?_
    rw [← hparts, List.head?_append, Option.mem_def.mp hc]
    rfl
  · intro c hc
    obtain ⟨hne, rfl⟩ := List.mem_getLast?_eq_getLast hc
    exact Bool.eq_false_iff.mpr (List.rdropWhile_last_not isBlank (trimStart text) hne)
  · intro hnil
    have hblank : ∀ c ∈ trimStart text, isBlank c = true := List.rdropWhile_eq_nil_iff.mp hnil
    rw [hnil, List.nil_append] at hparts
    rw [hparts]
    cases hleft : trimStart text with
    | nil => rfl
    | cons c rest =>
      rw [hleft] at hblank hfirst
      exact Bool.noConfusion ((hblank c List.mem_cons_self).symm.trans (hfirst c rfl))

namespace Trimmed

variable {text front inner tail : List Char}

theorem trimStart_eq (h : Trimmed text front inner tail) : trimStart text = inner ++ tail := by
  rw [h.parts, trimStart, List.dropWhile_append_of_pos h.blankFront]
  cases inner with
  | nil => rw [h.nothing rfl]; rfl
  | cons c inner => exact List.dropWhile_cons_of_neg (Bool.eq_false_iff.mp (h.first c rfl))

theorem trimEnd_eq (h : Trimmed text front inner tail) (hne : inner ≠ []) :
    trimEnd text = front ++ inner := by
  obtain ⟨init, c, rfl⟩ : ∃ init c, inner = init ++ [c] :=
    ⟨_, _, (List.dropLast_append_getLast hne).symm⟩
  have hc : ¬ isBlank c = true :=
    Bool.eq_false_iff.mp (h.last c (Option.mem_def.mpr List.getLast?_concat))
  have htail : ∀ c ∈ tail.reverse, isBlank c = true :=
    fun c hc => h.blankTail c (List.mem_reverse.mp hc)
  have hparts : text = front ++ init ++ [c] ++ tail := by
    rw [h.parts]
    simp only [List.append_assoc]
  rw [trimEnd, hparts, List.reverse_append, List.dropWhile_append_of_pos htail,
    List.reverse_concat, List.dropWhile_cons_of_neg hc, ← List.reverse_concat,
    List.reverse_reverse, List.append_assoc]

theorem trimEnd_blank (h : Trimmed text front [] tail) : trimEnd text = [] := by
  refine List.rdropWhile_eq_nil_iff.mpr fun c hc => h.blankFront c ?_
  rwa [h.parts, h.nothing rfl, List.append_nil, List.append_nil] at hc

/-- Trimming leaves what is not cut off. -/
theorem trim_eq (h : Trimmed text front inner tail) : trim text = inner := by
  have hrest : Trimmed (inner ++ tail) [] inner tail :=
    ⟨rfl, List.forall_mem_nil _, h.blankTail, h.first, h.last, h.nothing⟩
  rw [trim, h.trimStart_eq]
  by_cases hne : inner = []
  · subst hne
    exact hrest.trimEnd_blank
  · exact hrest.trimEnd_eq hne

end Trimmed

end Text

/-! ## Line breaks -/

/-- Numbers in order fall into those below a bound and those from it on. -/
theorem split_of_sorted {l : List Nat} (h : l.Pairwise (· < ·)) (bound : Nat) :
    ∃ front rest, l = front ++ rest ∧ (∀ b ∈ front, b < bound) ∧ ∀ b ∈ rest, bound ≤ b := by
  induction h with
  | nil => exact ⟨[], [], rfl, List.forall_mem_nil _, List.forall_mem_nil _⟩
  | @cons b l hb _ ih =>
    by_cases hlt : b < bound
    · obtain ⟨front, rest, rfl, hfront, hrest⟩ := ih
      exact ⟨b :: front, rest, rfl, List.forall_mem_cons.mpr ⟨hlt, hfront⟩, hrest⟩
    · have hle : bound ≤ b := Nat.not_lt.mp hlt
      refine ⟨[], b :: l, rfl, List.forall_mem_nil _, List.forall_mem_cons.mpr ⟨hle, ?_⟩⟩
      exact fun c hc => Nat.le_trans hle (Nat.le_of_lt (hb c hc))

namespace Source

variable {text : String} {i n : Nat}

theorem newlines_sorted (offset : Nat) (cs : List Char) :
    (newlines offset cs).Pairwise (· < ·) := by
  induction cs generalizing offset with
  | nil => exact .nil
  | cons c cs ih =>
    rw [newlines]
    split
    · exact .cons (fun b hb => (le_of_mem_newlines hb).1) (ih _)
    · exact ih _

/-- Lines end in order, and the last one at the end of the text. -/
theorem breaks_sorted (text : String) : (ofString text).breaks.Pairwise (· < ·) := by
  refine List.pairwise_append.mpr ⟨newlines_sorted 0 text.toList, List.pairwise_singleton _ _, ?_⟩
  intro b hb stop hstop
  rw [List.mem_singleton.mp hstop]
  have hlt := (le_of_mem_newlines hb).2
  rwa [Nat.zero_add] at hlt

theorem lineCount_eq (text : String) :
    (ofString text).lineCount = (ofString text).chars.count '\n' + 1 := by
  show (newlines 0 text.toList ++ [_]).length = text.toList.count '\n' + 1
  rw [List.length_append, length_newlines, List.length_singleton]

/-- The newlines before an offset are among the characters that start before it. -/
theorem countP_newlines (offset stop : Nat) (cs : List Char) :
    (newlines offset cs).countP (· < stop) = (Text.takeBytes (stop - offset) cs).count '\n' := by
  induction cs generalizing offset with
  | nil => cases stop - offset <;> rfl
  | cons c cs ih =>
    by_cases hlt : offset < stop
    · rw [Text.takeBytes_cons (Nat.sub_pos_of_lt hlt), List.count_cons, newlines, Nat.sub_sub]
      split
      · next hc =>
        subst hc
        rw [List.countP_cons, if_pos (decide_eq_true hlt), ih]
        rfl
      · next hc => rw [ih, if_neg (by simpa using hc), Nat.add_zero]
    · rw [Nat.sub_eq_zero_of_le (Nat.not_lt.mp hlt), Text.takeBytes_zero, List.count_nil,
        List.countP_eq_zero]
      intro b hb
      have hle := (le_of_mem_newlines hb).1
      rw [decide_eq_true_iff]
      omega

/-- The line of a byte is counted by the newlines before it. -/
theorem lineOf_eq_count (h : i ≤ (ofString text).length) :
    (ofString text).lineOf i = (Text.takeBytes i (ofString text).chars).count '\n' :=
  (lineOf_eq h).trans (countP_newlines 0 i text.toList)

/-- Places beyond the end are on the last line. -/
theorem lineOf_beyond (h : (ofString text).length ≤ i) :
    (ofString text).lineOf i = (ofString text).lineCount - 1 := by
  have hbreaks : (ofString text).breaks =
      newlines 0 text.toList ++ [(ofString text).length] := rfl
  have hcount : (newlines 0 text.toList).countP (· < i) = (newlines 0 text.toList).length := by
    refine List.countP_eq_length.mpr fun b hb => decide_eq_true ?_
    have hlt := (le_of_mem_newlines hb).2
    rw [Nat.zero_add] at hlt
    exact Nat.lt_of_lt_of_le hlt h
  unfold lineOf lineCount
  rw [hbreaks, List.countP_append, hcount, List.length_append, List.length_singleton]
  omega

theorem lineOf_lt_lineCount (text : String) (i : Nat) :
    (ofString text).lineOf i < (ofString text).lineCount := by
  have hpos : 0 < (ofString text).lineCount := lineCount_eq text ▸ Nat.succ_pos _
  exact Nat.lt_of_le_of_lt (Nat.min_le_right _ _) (Nat.sub_lt hpos Nat.one_pos)

/-! ## Lines as spans -/

theorem rawLine?_eq_some_iff {s : Source} {raw : Span} :
    s.rawLine? n = some raw ↔
      ∃ stop, s.breaks[n]? = some stop ∧ raw = ⟨s.lineStart n, min (stop + 1) s.length⟩ := by
  rw [rawLine?, Option.map_eq_some_iff]
  simp only [eq_comm]

theorem rawLine?_isSome_iff (s : Source) : (∃ raw, s.rawLine? n = some raw) ↔ n < s.lineCount := by
  constructor
  · rintro ⟨raw, h⟩
    obtain ⟨stop, hstop, -⟩ := rawLine?_eq_some_iff.mp h
    exact (List.getElem?_eq_some_iff.mp hstop).1
  · intro h
    exact ⟨_, rawLine?_eq_some_iff.mpr ⟨_, List.getElem?_eq_getElem h, rfl⟩⟩

theorem le_length_of_mem_breaks {stop : Nat} (h : stop ∈ (ofString text).breaks) :
    stop ≤ (ofString text).length := by
  rcases List.mem_append.mp h with h | h
  · have hlt := (le_of_mem_newlines h).2
    rw [Nat.zero_add] at hlt
    exact Nat.le_of_lt hlt
  · exact Nat.le_of_eq (List.mem_singleton.mp h)

/-- A line starts where the one before it stops. -/
theorem rawLine?_next {raw next : Span} (h : (ofString text).rawLine? n = some raw)
    (hnext : (ofString text).rawLine? (n + 1) = some next) : next.start = raw.stop := by
  obtain ⟨stop, hstop, rfl⟩ := rawLine?_eq_some_iff.mp h
  obtain ⟨stop', hstop', rfl⟩ := rawLine?_eq_some_iff.mp hnext
  obtain ⟨hn, rfl⟩ := List.getElem?_eq_some_iff.mp hstop
  obtain ⟨hn', rfl⟩ := List.getElem?_eq_some_iff.mp hstop'
  have hsorted := List.pairwise_iff_getElem.mp (breaks_sorted text)
  have hlt := hsorted n (n + 1) hn hn' (Nat.lt_succ_self n)
  have hle := le_length_of_mem_breaks (List.getElem_mem hn')
  have hstart : (ofString text).lineStart (n + 1) = (ofString text).breaks[n] + 1 := by
    rw [lineStart, hstop]
    rfl
  show (ofString text).lineStart (n + 1) = min _ _
  omega

/-- The last line stops where the text does. -/
theorem rawLine?_last {raw : Span}
    (h : (ofString text).rawLine? ((ofString text).lineCount - 1) = some raw) :
    raw.stop = (ofString text).length := by
  obtain ⟨stop, hstop, rfl⟩ := rawLine?_eq_some_iff.mp h
  have hlast : (ofString text).breaks.getLast? = some (ofString text).length :=
    List.getLast?_concat
  rw [List.getLast?_eq_getElem?] at hlast
  obtain rfl := Option.some.inj (hstop.symm.trans hlast)
  exact Nat.min_eq_right (Nat.le_succ _)

/-- The line of a place comes behind as many lines as end before the place. -/
theorem lineOf_eq_length {front rest : List Nat} (h : i ≤ (ofString text).length)
    (hbreaks : (ofString text).breaks = front ++ rest) (hfront : ∀ b ∈ front, b < i)
    (hrest : ∀ b ∈ rest, i ≤ b) : (ofString text).lineOf i = front.length := by
  have hbelow : front.countP (· < i) = front.length :=
    List.countP_eq_length.mpr fun b hb => decide_eq_true (hfront b hb)
  have hnone : rest.countP (· < i) = 0 :=
    List.countP_eq_zero.mpr fun b hb => by simpa using hrest b hb
  -- The end of the text is not before the place, so it is among the rest.
  have hne : rest ≠ [] := by
    rintro rfl
    have hlast : (ofString text).length ∈ (ofString text).breaks :=
      List.mem_append_right _ List.mem_cons_self
    rw [hbreaks, List.append_nil] at hlast
    exact Nat.not_lt.mpr h (hfront _ hlast)
  have hpos : 0 < rest.length := List.length_pos_of_ne_nil hne
  unfold lineOf lineCount
  rw [hbreaks, List.countP_append, hbelow, hnone, List.length_append]
  omega

/-- The lines that end before a place are those before its own. -/
theorem break_lt_iff {stop : Nat} (h : i ≤ (ofString text).length)
    (hstop : (ofString text).breaks[n]? = some stop) : stop < i ↔ n < (ofString text).lineOf i := by
  obtain ⟨front, rest, hbreaks, hfront, hrest⟩ := split_of_sorted (breaks_sorted text) i
  rw [lineOf_eq_length h hbreaks hfront hrest]
  rw [hbreaks] at hstop
  rcases Nat.lt_or_ge n front.length with hn | hn
  · rw [List.getElem?_append_left hn] at hstop
    exact iff_of_true (hfront stop (List.mem_of_getElem? hstop)) hn
  · rw [List.getElem?_append_right hn] at hstop
    exact iff_of_false (Nat.not_lt.mpr (hrest stop (List.mem_of_getElem? hstop)))
      (Nat.not_lt.mpr hn)

theorem lineStart_le_iff (h : i ≤ (ofString text).length) (hn : n < (ofString text).lineCount) :
    (ofString text).lineStart n ≤ i ↔ n ≤ (ofString text).lineOf i := by
  cases n with
  | zero => exact iff_of_true (Nat.zero_le _) (Nat.zero_le _)
  | succ n =>
    have hstop := List.getElem?_eq_getElem (Nat.lt_of_succ_lt hn)
    rw [lineStart, hstop]
    exact break_lt_iff h hstop

/-- A byte is on the line that is counted for it, and on no other. -/
theorem rawLine?_holds_iff (h : i < (ofString text).length) :
    (∃ raw, (ofString text).rawLine? n = some raw ∧ raw.start ≤ i ∧ i < raw.stop) ↔
      (ofString text).lineOf i = n := by
  have hle := Nat.le_of_lt h
  constructor
  · rintro ⟨raw, hraw, hstart, hlt⟩
    have hn := (rawLine?_isSome_iff _).mp ⟨raw, hraw⟩
    obtain ⟨stop, hstop, rfl⟩ := rawLine?_eq_some_iff.mp hraw
    have hbelow := (lineStart_le_iff hle hn).mp hstart
    have habove := break_lt_iff hle hstop
    simp only at hlt
    omega
  · rintro rfl
    have hn := lineOf_lt_lineCount text i
    obtain ⟨raw, hraw⟩ := (rawLine?_isSome_iff _).mpr hn
    obtain ⟨stop, hstop, rfl⟩ := rawLine?_eq_some_iff.mp hraw
    have habove := break_lt_iff hle hstop
    refine ⟨_, hraw, (lineStart_le_iff hle hn).mpr (Nat.le_refl _), ?_⟩
    simp only
    omega

/-! ## Lines as text -/

/-- A numbered line of a source text, with the newline that ends it, and the text before and behind
it. The text before it is empty or ends with a newline, and only the last line has none. -/
structure LineAt (s : Source) (number : Nat) (before line behind : List Char) : Prop where
  parts : s.chars = before ++ (line ++ behind)
  count : before.count '\n' = number
  starts : before = [] ∨ ∃ front, before = front ++ ['\n']
  ends : ∃ text, '\n' ∉ text ∧ (line = text ++ ['\n'] ∨ line = text ∧ behind = [])

/-- Behind every newline of a text, and at its start, a line starts. -/
theorem exists_line_start {cs : List Char} (h : n ≤ cs.count '\n') :
    ∃ before rest, cs = before ++ rest ∧ before.count '\n' = n ∧
      (before = [] ∨ ∃ front, before = front ++ ['\n']) := by
  induction n with
  | zero => exact ⟨[], cs, rfl, rfl, .inl rfl⟩
  | succ n ih =>
    obtain ⟨before, rest, rfl, rfl, -⟩ := ih (Nat.le_of_succ_le h)
    rw [List.count_append] at h
    have hmem : '\n' ∈ rest := List.count_pos_iff.mp (by omega)
    obtain ⟨line, behind, rfl, hline⟩ := List.eq_append_cons_of_mem hmem
    refine ⟨before ++ line ++ ['\n'], behind, ?_, ?_, .inr ⟨before ++ line, rfl⟩⟩
    · simp only [List.append_assoc, List.singleton_append]
    · rw [List.count_append, List.count_append, List.count_eq_zero.mpr hline,
        List.count_singleton_self]

theorem exists_lineAt {s : Source} (h : n ≤ s.chars.count '\n') :
    ∃ before line behind, s.LineAt n before line behind := by
  obtain ⟨before, rest, hparts, hcount, hstart⟩ := exists_line_start h
  by_cases hmem : '\n' ∈ rest
  · obtain ⟨line, behind, rfl, hline⟩ := List.eq_append_cons_of_mem hmem
    refine ⟨before, line ++ ['\n'], behind, ?_, hcount, hstart, line, hline, .inl rfl⟩
    rw [hparts, List.append_assoc, List.singleton_append]
  · exact ⟨before, rest, [], by rw [hparts, List.append_nil], hcount, hstart, rest, hmem,
      .inr ⟨rfl, rfl⟩⟩

namespace LineAt

variable {before line behind front inner tail : List Char}

theorem lineStart_eq (h : (ofString text).LineAt n before line behind) :
    (ofString text).lineStart n = Text.byteLength before := by
  have hparts : text.toList = before ++ (line ++ behind) := h.parts
  rcases h.starts with rfl | ⟨front, rfl⟩
  · obtain rfl := h.count
    rfl
  · rw [List.append_assoc, List.singleton_append] at hparts
    rw [← h.count, List.count_append, List.count_singleton_self, lineStart, breaks_eq hparts,
      ← length_newlines 0 front, List.getElem?_append_right (Nat.le_refl _), Nat.sub_self]
    exact (Text.byteLength_append front ['\n']).symm

/-- A line is read back from where its text is. -/
theorem rawLine?_eq (h : (ofString text).LineAt n before line behind) :
    (ofString text).rawLine? n =
      some ⟨Text.byteLength before, Text.byteLength (before ++ line)⟩ := by
  have hparts : text.toList = before ++ (line ++ behind) := h.parts
  have hlength : (ofString text).length = Text.byteLength (before ++ (line ++ behind)) :=
    congrArg Text.byteLength hparts
  obtain ⟨stop, hstop, hmin⟩ : ∃ stop, (ofString text).breaks[n]? = some stop ∧
      min (stop + 1) (ofString text).length = Text.byteLength (before ++ line) := by
    rw [hlength, breaks_eq hparts, ← h.count, ← length_newlines 0 before,
      List.getElem?_append_right (Nat.le_refl _), Nat.sub_self]
    obtain ⟨body, hbody, rfl | ⟨rfl, rfl⟩⟩ := h.ends
    · refine ⟨Text.byteLength before + Text.byteLength body, ?_, ?_⟩
      · rw [List.append_assoc, newlines_append, newlines_of_not_mem hbody]
        rfl
      · have hsize : Text.byteLength ['\n'] = 1 := rfl
        simp only [Text.byteLength_append]
        omega
    · refine ⟨Text.byteLength (before ++ line), ?_, ?_⟩
      · rw [List.append_nil, newlines_of_not_mem hbody]
        rfl
      · rw [List.append_nil]
        exact Nat.min_eq_right (Nat.le_succ _)
  rw [rawLine?, hstop, ← h.lineStart_eq, ← hmin]
  rfl

theorem slice_eq (h : (ofString text).LineAt n before line behind) :
    (ofString text).slice ⟨Text.byteLength before, Text.byteLength (before ++ line)⟩ = line := by
  refine Span.Covers.slice_eq ⟨before, behind, ?_, ?_⟩
  · rw [h.parts, List.append_assoc]
  · simp only [Nat.zero_add]

/-- A line without the white space around it is where what is left of its text is. -/
theorem line?_eq (h : (ofString text).LineAt n before line behind)
    (htrimmed : Text.Trimmed line front inner tail) :
    (ofString text).line? n = some ⟨Text.byteLength (before ++ front),
      Text.byteLength (before ++ front ++ inner)⟩ := by
  have hline : Text.byteLength line =
      Text.byteLength front + (Text.byteLength inner + Text.byteLength tail) := by
    rw [htrimmed.parts, Text.byteLength_append, Text.byteLength_append]
  rw [Source.line?, h.rawLine?_eq, Option.map_some]
  simp only [h.slice_eq, htrimmed.trimStart_eq]
  simp only [Text.byteLength_append, Option.some.injEq, Span.mk.injEq]
  by_cases hne : inner = []
  · subst hne
    rw [htrimmed.trimEnd_blank]
    obtain rfl := htrimmed.nothing rfl
    have hnil : Text.byteLength [] = 0 := rfl
    omega
  · rw [htrimmed.trimEnd_eq hne, Text.byteLength_append]
    omega

theorem readLine?_eq (h : (ofString text).LineAt n before line behind)
    (htrimmed : Text.Trimmed line front inner tail) :
    (ofString text).readLine? n = some (String.ofList inner) := by
  have hcovers : Span.Covers ⟨Text.byteLength (before ++ front),
      Text.byteLength (before ++ front ++ inner)⟩ 0 (ofString text).chars inner := by
    refine ⟨before ++ front, tail ++ behind, ?_, ?_⟩
    · rw [h.parts, htrimmed.parts]
      simp only [List.append_assoc]
    · simp only [Nat.zero_add]
  rw [readLine?, h.line?_eq htrimmed, Option.map_some, hcovers.slice_eq]

end LineAt

theorem exists_lineAt_of_rawLine? {raw : Span} (h : (ofString text).rawLine? n = some raw) :
    ∃ before line behind, (ofString text).LineAt n before line behind ∧
      raw = ⟨Text.byteLength before, Text.byteLength (before ++ line)⟩ ∧
      (ofString text).slice raw = line := by
  have hn := (rawLine?_isSome_iff _).mp ⟨raw, h⟩
  rw [lineCount_eq] at hn
  obtain ⟨before, line, behind, hat⟩ := exists_lineAt (Nat.le_of_lt_succ hn)
  obtain rfl := Option.some.inj (h.symm.trans hat.rawLine?_eq)
  exact ⟨before, line, behind, hat, rfl, hat.slice_eq⟩

/-- What is cut off in front and at the end lies between a line and its text. -/
theorem exists_trimmed_of_rawLine? {raw : Span} (h : (ofString text).rawLine? n = some raw) :
    ∃ front inner tail span, Text.Trimmed ((ofString text).slice raw) front inner tail ∧
      Text.trim ((ofString text).slice raw) = inner ∧ (ofString text).line? n = some span ∧
      (ofString text).readLine? n = some (String.ofList inner) ∧
      span.start = raw.start + Text.byteLength front ∧
      span.stop = span.start + Text.byteLength inner ∧
      raw.stop = span.stop + Text.byteLength tail := by
  obtain ⟨before, line, behind, hat, rfl, -⟩ := exists_lineAt_of_rawLine? h
  obtain ⟨front, inner, tail, htrimmed⟩ := Text.exists_trimmed line
  rw [hat.slice_eq]
  refine ⟨front, inner, tail, _, htrimmed, htrimmed.trim_eq, hat.line?_eq htrimmed,
    hat.readLine?_eq htrimmed, Text.byteLength_append .., Text.byteLength_append .., ?_⟩
  rw [htrimmed.parts]
  simp only [Text.byteLength_append]
  omega

/-- Of a line of white space nothing is left, at its end. -/
theorem line?_blank {raw : Span} (h : (ofString text).rawLine? n = some raw)
    (hblank : ∀ c ∈ (ofString text).slice raw, Text.isBlank c = true) :
    (ofString text).line? n = some ⟨raw.stop, raw.stop⟩ := by
  obtain ⟨front, inner, tail, ⟨start, stop⟩, htrimmed, -, hspan, -, -, hstop, hraw⟩ :=
    exists_trimmed_of_rawLine? h
  cases inner with
  | nil =>
    obtain rfl := htrimmed.nothing rfl
    simp only [Text.byteLength, Nat.add_zero] at hstop hraw
    rw [hspan, hraw, hstop]
  | cons c inner =>
    have hc : c ∈ (ofString text).slice raw :=
      htrimmed.parts ▸ List.mem_append_right _ List.mem_cons_self
    exact Bool.noConfusion ((hblank c hc).symm.trans (htrimmed.first c rfl))

theorem line?_eq_none_iff (s : Source) : s.line? n = none ↔ s.lineCount ≤ n := by
  rw [line?, Option.map_eq_none_iff, rawLine?, Option.map_eq_none_iff, List.getElem?_eq_none_iff]
  rfl

theorem readLine?_eq_none_iff (s : Source) : s.readLine? n = none ↔ s.lineCount ≤ n := by
  rw [readLine?, Option.map_eq_none_iff, line?_eq_none_iff]

/-! ## Source texts -/

/-- What a source text tells about places agrees with its characters. -/
structure Consistent (s : Source) : Prop where
  /-- There is one line more than there are newlines. -/
  lineCount_eq : s.lineCount = s.chars.count '\n' + 1
  rawLine (n : Nat) : (∃ raw, s.rawLine? n = some raw) ↔ n < s.lineCount
  /-- The lines lie one behind the other, from the start of the text to its end. -/
  first (raw : Span) : s.rawLine? 0 = some raw → raw.start = 0
  next (n : Nat) (raw next : Span) :
    s.rawLine? n = some raw → s.rawLine? (n + 1) = some next → next.start = raw.stop
  last (raw : Span) : s.rawLine? (s.lineCount - 1) = some raw → raw.stop = s.length
  line (n : Nat) (raw : Span) : s.rawLine? n = some raw → ∃ before line behind,
    s.LineAt n before line behind ∧
      raw = ⟨Text.byteLength before, Text.byteLength (before ++ line)⟩ ∧ s.slice raw = line
  /-- The ends of lines are in order, so those before a place can be found by bisection. -/
  sorted : s.breaks.Pairwise (· < ·)
  /-- The line of a byte is counted by the newlines before it, and its column from where that line
  starts. -/
  position (i : Nat) (h : i ≤ s.length) : ∃ raw,
    s.rawLine? ((Text.takeBytes i s.chars).count '\n') = some raw ∧ raw.start ≤ i ∧
      s.position i = ((Text.takeBytes i s.chars).count '\n', i - raw.start)
  /-- A byte is on that line, and on no other. -/
  holds (i n : Nat) (h : i < s.length) :
    (∃ raw, s.rawLine? n = some raw ∧ raw.start ≤ i ∧ i < raw.stop) ↔ (s.position i).1 = n
  /-- Places beyond the end are on the last line. -/
  beyond (i : Nat) (h : s.length ≤ i) : ∃ raw,
    s.rawLine? (s.lineCount - 1) = some raw ∧ s.position i = (s.lineCount - 1, i - raw.start)
  /-- A line is read back without the white space around it, which may be all of it. -/
  trimmed (n : Nat) (raw : Span) : s.rawLine? n = some raw → ∃ front inner tail span,
    Text.Trimmed (s.slice raw) front inner tail ∧ Text.trim (s.slice raw) = inner ∧
      s.line? n = some span ∧ s.readLine? n = some (String.ofList inner) ∧
      span.start = raw.start + Text.byteLength front ∧
      span.stop = span.start + Text.byteLength inner ∧
      raw.stop = span.stop + Text.byteLength tail
  blank (n : Nat) (raw : Span) : s.rawLine? n = some raw →
    (∀ c ∈ s.slice raw, Text.isBlank c = true) → s.line? n = some ⟨raw.stop, raw.stop⟩
  absent (n : Nat) : (s.line? n = none ↔ s.lineCount ≤ n) ∧ (s.readLine? n = none ↔ s.lineCount ≤ n)
  charIndex_mono (i j : Nat) : i ≤ j → s.charIndex i ≤ s.charIndex j
  /-- At the start of a character, and at the end of the text, the characters before are counted. -/
  charIndex_start (before behind : List Char) : s.chars = before ++ behind →
    s.charIndex (Text.byteLength before) = before.length
  /-- All bytes of a character have its index. -/
  charIndex_inside (i : Nat) (h : i < s.length) : ∃ before c behind,
    s.chars = before ++ c :: behind ∧ Text.byteLength before ≤ i ∧
      i < Text.byteLength before + c.utf8Size ∧ s.charIndex i = before.length
  charIndex_beyond (n : Nat) : s.charIndex (s.length + n) = s.chars.length + n

end Source

/-- The lines of every text, the places in it and the numbers of its characters are consistent. -/
theorem source_positions_consistent (text : String) : (Source.ofString text).Consistent where
  lineCount_eq := Source.lineCount_eq text
  rawLine n := Source.rawLine?_isSome_iff _
  first raw h := by
    obtain ⟨stop, -, rfl⟩ := Source.rawLine?_eq_some_iff.mp h
    rfl
  next n raw next := Source.rawLine?_next
  last raw := Source.rawLine?_last
  line n raw := Source.exists_lineAt_of_rawLine?
  sorted := Source.breaks_sorted text
  position i h := by
    have hn := Source.lineOf_lt_lineCount text i
    obtain ⟨raw, hraw⟩ := (Source.rawLine?_isSome_iff _).mpr hn
    obtain ⟨stop, -, rfl⟩ := Source.rawLine?_eq_some_iff.mp hraw
    rw [← Source.lineOf_eq_count h]
    exact ⟨_, hraw, (Source.lineStart_le_iff h hn).mpr (Nat.le_refl _), rfl⟩
  holds i n h := Source.rawLine?_holds_iff h
  beyond i h := by
    have hn := Source.lineOf_lt_lineCount text i
    obtain ⟨raw, hraw⟩ := (Source.rawLine?_isSome_iff _).mpr hn
    obtain ⟨stop, -, rfl⟩ := Source.rawLine?_eq_some_iff.mp hraw
    rw [← Source.lineOf_beyond h]
    exact ⟨_, hraw, rfl⟩
  trimmed n raw := Source.exists_trimmed_of_rawLine?
  blank n raw := Source.line?_blank
  absent n := ⟨Source.line?_eq_none_iff _, Source.readLine?_eq_none_iff _⟩
  charIndex_mono i j := Text.charIndex_mono _
  charIndex_start before behind h := by
    unfold Source.charIndex
    rw [h, Text.charIndex_byteLength]
  charIndex_inside i h := by
    obtain ⟨before, c, behind, hchars, hle, hlt⟩ := Text.exists_char h
    refine ⟨before, c, behind, hchars, hle, hlt, ?_⟩
    unfold Source.charIndex
    rw [hchars, Text.charIndex_inside before behind hle hlt]
  charIndex_beyond := Text.charIndex_beyond _

-- The first character has two bytes, and the line that it is on ends with a carriage return.
example : (Source.ofString "é \r\nb").position 1 = (0, 1) ∧
    (Source.ofString "é \r\nb").charIndex 1 = 0 ∧
    (Source.ofString "é \r\nb").rawLine? 0 = some ⟨0, 5⟩ ∧
    (Source.ofString "é \r\nb").line? 0 = some ⟨0, 2⟩ := by decide

end MipsLab
