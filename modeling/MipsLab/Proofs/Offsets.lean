import Mathlib.Data.List.Infix
import MipsLab.Problem

/-!
# Bytes, characters and lines

The lexer counts bytes, and a location counts lines and characters. At the start of a character all
of these counts belong to the text before it, whatever characters that text has and however many
bytes they take.

1. `Text.charIndex_byteLength`, `Source.lineOf_byteLength`: the counts at the start of a character.
2. `Span.Covers`: spans of whole characters.
3. `Location.Marks`, `Location.marks_ofSpan`: what the location of such a span tells.
-/

namespace MipsLab

/-! ## Bytes and characters -/

namespace Text

theorem byteLength_eq_zero {cs : List Char} (h : byteLength cs = 0) : cs = [] := by
  cases cs with
  | nil => rfl
  | cons c cs =>
    have hc : 0 < c.utf8Size := c.utf8Size_pos
    rw [byteLength] at h
    omega

theorem length_le_byteLength (cs : List Char) : cs.length ≤ byteLength cs := by
  induction cs with
  | nil => exact Nat.le_refl _
  | cons c cs ih =>
    have hc : 0 < c.utf8Size := c.utf8Size_pos
    rw [List.length_cons, byteLength]
    omega

theorem dropBytes_byteLength (before rest : List Char) :
    dropBytes (byteLength before) (before ++ rest) = rest := by
  induction before with
  | nil => cases rest <;> rfl
  | cons c cs ih =>
    obtain ⟨n, hn⟩ := Nat.exists_eq_add_one.mpr (Nat.add_pos_left c.utf8Size_pos (byteLength cs))
    rw [List.cons_append, byteLength, hn, dropBytes, ← hn, Nat.add_sub_cancel_left]
    · exact ih
    · omega

theorem takeBytes_byteLength (inside rest : List Char) :
    takeBytes (byteLength inside) (inside ++ rest) = inside := by
  induction inside with
  | nil => cases rest <;> rfl
  | cons c cs ih =>
    obtain ⟨n, hn⟩ := Nat.exists_eq_add_one.mpr (Nat.add_pos_left c.utf8Size_pos (byteLength cs))
    rw [List.cons_append, byteLength, hn, takeBytes, ← hn, Nat.add_sub_cancel_left, ih]
    omega

/-- At the start of a character, the characters before it are counted. -/
theorem charIndex_byteLength (before rest : List Char) :
    charIndex (before ++ rest) (byteLength before) = before.length := by
  induction before with
  | nil =>
    cases rest with
    | nil => rfl
    | cons c rest => exact if_pos c.utf8Size_pos
  | cons c cs ih =>
    rw [List.cons_append, byteLength, charIndex, if_neg (Nat.not_lt.mpr (Nat.le_add_right _ _)),
      Nat.add_sub_cancel_left, ih, List.length_cons]

end Text

/-! ## Lines -/

namespace Source

theorem newlines_append (offset : Nat) (before rest : List Char) :
    newlines offset (before ++ rest) =
      newlines offset before ++ newlines (offset + Text.byteLength before) rest := by
  induction before generalizing offset with
  | nil => rfl
  | cons c cs ih =>
    rw [List.cons_append, newlines, newlines, Text.byteLength, ih, ih, ← Nat.add_assoc]
    split
    · next hc =>
      subst hc
      rfl
    · rfl

theorem length_newlines (offset : Nat) (cs : List Char) :
    (newlines offset cs).length = cs.count '\n' := by
  induction cs generalizing offset with
  | nil => rfl
  | cons c cs ih =>
    rw [newlines, List.count_cons]
    split
    · next hc => rw [List.length_cons, ih, hc, if_pos (beq_self_eq_true _)]
    · next hc => rw [ih, if_neg (by simpa using hc), Nat.add_zero]

theorem le_of_mem_newlines {offset n : Nat} {cs : List Char} (h : n ∈ newlines offset cs) :
    offset ≤ n ∧ n < offset + Text.byteLength cs := by
  induction cs generalizing offset with
  | nil => exact nomatch h
  | cons c cs ih =>
    have hc : 0 < c.utf8Size := c.utf8Size_pos
    rw [newlines] at h
    rw [Text.byteLength]
    split at h
    · next hnewline =>
      subst hnewline
      have hsize : '\n'.utf8Size = 1 := rfl
      rcases List.mem_cons.mp h with rfl | h
      · omega
      · have := ih h
        omega
    · have := ih h
      omega

/-- Where the lines end, for the text before the start of a character and the text behind it. -/
theorem breaks_eq {text : String} {before rest : List Char} (h : text.toList = before ++ rest) :
    (ofString text).breaks = newlines 0 before ++
      (newlines (Text.byteLength before) rest ++ [Text.byteLength (before ++ rest)]) := by
  show newlines 0 text.toList ++ [Text.byteLength text.toList] = _
  rw [h, newlines_append, Nat.zero_add, List.append_assoc]

/-- At the start of a character, the newlines before it are counted. -/
theorem lineOf_byteLength {text : String} {before rest : List Char}
    (h : text.toList = before ++ rest) :
    (ofString text).lineOf (Text.byteLength before) = before.count '\n' := by
  have hbefore : (newlines 0 before).countP (· < Text.byteLength before) = before.count '\n' := by
    rw [← length_newlines 0, List.countP_eq_length]
    intro n hn
    have := (le_of_mem_newlines hn).2
    exact decide_eq_true (by omega)
  have hbehind : (newlines (Text.byteLength before) rest ++
      [Text.byteLength (before ++ rest)]).countP (· < Text.byteLength before) = 0 := by
    rw [List.countP_eq_zero]
    intro n hn
    rw [decide_eq_true_iff, Nat.not_lt]
    rcases List.mem_append.mp hn with hn | hn
    · exact (le_of_mem_newlines hn).1
    · rw [List.mem_singleton.mp hn, Text.byteLength_append]
      exact Nat.le_add_right _ _
  have hcount : before.count '\n' ≤ (ofString text).lineCount - 1 := by
    unfold lineCount
    rw [breaks_eq h, ← length_newlines 0 before]
    simp only [List.length_append, List.length_singleton]
    omega
  unfold lineOf
  rw [breaks_eq h, List.countP_append, hbefore, hbehind]
  exact Nat.min_eq_left hcount

end Source

/-! ## Spans of whole characters -/

/-- A span covers some characters of a text that starts at a byte offset. -/
def Span.Covers (s : Span) (offset : Nat) (text inside : List Char) : Prop :=
  ∃ before behind, text = before ++ inside ++ behind ∧
    s = ⟨offset + Text.byteLength before, offset + Text.byteLength (before ++ inside)⟩

namespace Span.Covers

variable {s first last : Span} {offset : Nat} {text inside : List Char}

/-- With more text in front. -/
theorem append_left {front : List Char}
    (h : s.Covers (offset + Text.byteLength front) text inside) :
    s.Covers offset (front ++ text) inside := by
  obtain ⟨before, behind, rfl, rfl⟩ := h
  refine ⟨front ++ before, behind, by simp only [List.append_assoc], ?_⟩
  rw [List.append_assoc, Text.byteLength_append front, Text.byteLength_append front,
    Nat.add_assoc, Nat.add_assoc]

/-- With more text behind. -/
theorem append_right (h : s.Covers offset text inside) (rest : List Char) :
    s.Covers offset (text ++ rest) inside := by
  obtain ⟨before, behind, rfl, rfl⟩ := h
  exact ⟨before, behind ++ rest, List.append_assoc .., rfl⟩

theorem start_le (h : s.Covers offset text inside) : offset ≤ s.start ∧ s.start ≤ s.stop := by
  obtain ⟨before, behind, -, rfl⟩ := h
  rw [Text.byteLength_append]
  simp only
  omega

/-- The place behind a span. -/
theorem behind (h : s.Covers offset text inside) : Covers ⟨s.stop, s.stop⟩ offset text [] := by
  obtain ⟨before, behind, rfl, rfl⟩ := h
  exact ⟨before ++ inside, behind, by rw [List.append_nil], by rw [List.append_nil]⟩

/-- From the start of a span to the end of another. -/
theorem join {inside' : List Char} (hfirst : first.Covers offset text inside)
    (hlast : last.Covers offset text inside') (hle : first.start ≤ last.stop) :
    ∃ between, Covers ⟨first.start, last.stop⟩ offset text between := by
  obtain ⟨before, behind, htext, rfl⟩ := hfirst
  obtain ⟨before', behind', htext', rfl⟩ := hlast
  simp only at hle
  -- Of the texts before the start and before the end, the one with more bytes is longer.
  have hfront : before <+: before' ++ inside' := by
    have hone : before <+: text := ⟨inside ++ behind, by rw [htext, List.append_assoc]⟩
    have hother : before' ++ inside' <+: text := ⟨behind', htext'.symm⟩
    rcases List.prefix_or_prefix_of_prefix hone hother with h | ⟨more, hmore⟩
    · exact h
    · rw [← hmore, Text.byteLength_append (before' ++ inside') more] at hle
      obtain rfl : more = [] := Text.byteLength_eq_zero (by omega)
      rw [← hmore, List.append_nil]
  obtain ⟨between, hbetween⟩ := hfront
  exact ⟨between, before, behind', by rw [hbetween, htext'], by rw [hbetween]⟩

theorem notMem {c : Char} (h : s.Covers offset text inside) (hc : c ∉ text) : c ∉ inside := by
  obtain ⟨before, behind, rfl, -⟩ := h
  exact fun hmem => hc (List.mem_append_left _ (List.mem_append_right _ hmem))

/-- The characters that a span covers are those that are read back. -/
theorem slice_eq {source : Source} (h : s.Covers 0 source.chars inside) :
    source.slice s = inside := by
  obtain ⟨before, behind, hchars, rfl⟩ := h
  unfold Source.slice
  simp only [Nat.zero_add]
  rw [hchars, List.append_assoc, Text.dropBytes_byteLength, Text.byteLength_append,
    Nat.add_sub_cancel_left, Text.takeBytes_byteLength]

end Span.Covers

/-! ## Locations -/

/-- A location tells where a span is in a source text: on the line that the newlines before it
count, and at the characters that those before it count. -/
inductive Location.Marks (source : Source) : Location → Span → Prop
  /-- The place of an empty span is that of the character at it, if there is one. -/
  | nothing {before behind : List Char} (hchars : source.chars = before ++ behind) :
    Marks source (.range (before.count '\n' + 1) before.length before.length)
      ⟨Text.byteLength before, Text.byteLength before⟩
  /-- From its first to its last character, a span is the same in bytes and in characters. -/
  | characters {before inside behind : List Char} {stop : Nat}
    (hchars : source.chars = before ++ inside ++ behind) (hinside : inside ≠ [])
    (hslice : source.slice ⟨Text.byteLength before, Text.byteLength (before ++ inside)⟩ = inside)
    (hline : '\n' ∉ inside) (hstop : stop < source.chars.length)
    (hselect : (source.chars.take (stop + 1)).drop before.length = inside) :
    Marks source (.range (before.count '\n' + 1) before.length stop)
      ⟨Text.byteLength before, Text.byteLength (before ++ inside)⟩

theorem Location.marks_ofSpan {text : String} {s : Span} {inside : List Char}
    (h : s.Covers 0 text.toList inside) (hline : '\n' ∉ inside) :
    Marks (Source.ofString text) (Location.ofSpan s (Source.ofString text)) s := by
  have hslice : (Source.ofString text).slice s = inside := h.slice_eq
  obtain ⟨before, behind, hchars, rfl⟩ := h
  simp only [Nat.zero_add] at hslice ⊢
  have hrest : text.toList = before ++ (inside ++ behind) := by rw [hchars, List.append_assoc]
  have hstart : (Source.ofString text).charIndex (Text.byteLength before) = before.length := by
    show Text.charIndex text.toList _ = _
    rw [hrest, Text.charIndex_byteLength]
  have hstop : (Source.ofString text).charIndex (Text.byteLength (before ++ inside)) =
      before.length + inside.length := by
    show Text.charIndex text.toList _ = _
    rw [hchars, Text.charIndex_byteLength, List.length_append]
  have hnumber := Source.lineOf_byteLength hrest
  unfold Location.ofSpan Location.mkRange Span.isEmpty
  simp only
  rw [hstart, hstop, hnumber]
  cases inside with
  | nil =>
    rw [List.append_nil, if_pos (decide_eq_true (Nat.le_refl _)), Nat.max_self]
    exact .nothing hrest
  | cons c cs =>
    have hlonger : ¬ Text.byteLength (before ++ c :: cs) ≤ Text.byteLength before := by
      have hc : 0 < c.utf8Size := c.utf8Size_pos
      rw [Text.byteLength_append, Text.byteLength]
      omega
    have hlast : max (before.length + (c :: cs).length - 1) before.length =
        before.length + cs.length := by
      rw [List.length_cons]
      omega
    rw [if_neg (by rwa [decide_eq_true_iff]), hlast]
    refine .characters hchars (List.cons_ne_nil c cs) hslice hline ?_ ?_
    · show _ < text.toList.length
      rw [hchars]
      simp only [List.length_append, List.length_cons]
      omega
    · show (text.toList.take _).drop _ = _
      have hlength : before.length + cs.length + 1 = (before ++ c :: cs).length := by
        rw [List.length_append, List.length_cons, Nat.add_assoc]
      rw [hchars, hlength, List.take_left, List.drop_left]

-- The first character takes two bytes, and counts once.
example : Location.ofSpan ⟨3, 5⟩ (.ofString "é\nab") = .range 2 2 3 := by decide

/-- The numbers that are shown for a location are its line and its range. -/
inductive Location.Counted : Location → Prop
  | range {number start stop : Nat} (hnumber : (range number start stop).lineNumber = number)
    (hstart : (range number start stop).rangeStart = start)
    (hstop : (range number start stop).rangeEnd = stop) : Counted (.range number start stop)

theorem Location.Counted.hasLine {location : Location} (h : location.Counted) :
    location.hasLine = true := by
  cases h with
  | range hnumber hstart hstop =>
    unfold Location.hasLine Location.missing
    rw [hnumber, bne_iff_ne]
    omega

/-- The numbers of a location are numbers of characters, and so they are shown as they are unless
the text is beyond all bounds. -/
theorem Location.Marks.counted {source : Source} {location : Location} {s : Span}
    (h : Marks source location s) (hchar : ∃ c ∈ source.chars, c ≠ '\n')
    (hlength : source.length < 0x8000000000000000) : location.Counted := by
  have hbytes : source.chars.length ≤ source.length := Text.length_le_byteLength source.chars
  have hcount : source.chars.count '\n' < source.chars.length := by
    refine Nat.lt_of_le_of_ne List.count_le_length fun heq => ?_
    obtain ⟨c, hc, hne⟩ := hchar
    exact hne (List.count_eq_length.mp heq c hc).symm
  have hbefore {before : List Char} (hfront : before <+: source.chars) :
      before.count '\n' + 1 < 0x8000000000000000 ∧ before.length < 0x8000000000000000 := by
    have hnewlines := hfront.sublist.count_le '\n'
    have hchars := hfront.length_le
    omega
  cases h with
  | nothing hchars =>
    obtain ⟨hnumber, hstart⟩ := hbefore ⟨_, hchars.symm⟩
    exact .range (ofCount_of_lt hnumber) (ofCount_of_lt hstart) (ofCount_of_lt hstart)
  | characters hchars hinside hslice hline hstop hselect =>
    rw [List.append_assoc] at hchars
    obtain ⟨hnumber, hstart⟩ := hbefore ⟨_, hchars.symm⟩
    exact .range (ofCount_of_lt hnumber) (ofCount_of_lt hstart) (ofCount_of_lt (by omega))

end MipsLab
