import Mathlib.Data.List.Basic
import MipsLab.Proofs.Operands

/-!
# The grammar of operands

What operands may look like, told without a parser, and that the readers of operands take exactly
that. A reader of one operand stops where a comma follows or nothing, and a reader of all operands
takes what is left of a line.

1. `Operand.Admits`, `Operand.Separated`: what the operands of each kind are written with, and
   several of them.
2. `LineReader.Gives`: what a reader takes off the front of a line, and what it has read then.
3. `LineReader.Recognizes`: readers that take exactly what one operand is written with.
4. `LineReader.Fills`: readers that take exactly the lines of a certain form.
-/

namespace MipsLab

/-! ## Grammar -/

/-- The kinds of operands. -/
inductive Operand
  | register
  /-- An integer within bounds. -/
  | number (low high : Int)
  | label
  /-- A label, with an offset or without, or a number. -/
  | address
  /-- Where a branch goes: a label or a number of words. -/
  | target
  /-- A place in memory: a register with an offset or without, or an address. -/
  | place
  | string

/-- What an operand is written with. -/
inductive Operand.Admits : Operand → List Token → Prop
  | register (r : Reg) : Admits register [.register r]
  | number {low high n : Int} {token : Token} (h : token.integer? = some n) (hlow : low ≤ n)
      (hhigh : n ≤ high) : Admits (number low high) [token]
  | label (name : String) : Admits label [.identifier name]
  | labelAddress (name : String) : Admits address [.identifier name]
  | labelPlus (name : String) {offset : List Token}
      (h : Admits (number Word.minSigned Word.maxSigned) offset) :
      Admits address (.identifier name :: .plus :: offset)
  | labelMinus (name : String) (offset : Int) :
      Admits address [.identifier name, .signed offset]
  | absolute {token : Token} {n : Int} (h : token.integer? = some n) : Admits address [token]
  | labelTarget (name : String) : Admits target [.identifier name]
  | words {offset : List Token} (h : Admits (number (-0x8000) 0x7FFF) offset) :
      Admits target offset
  | base (r : Reg) : Admits place [.leftParen, .register r, .rightParen]
  | based {offset : List Token} (h : Admits (number (-0x8000) 0x7FFF) offset) (r : Reg) :
      Admits place (offset ++ [.leftParen, .register r, .rightParen])
  | direct {tokens : List Token} (h : Admits address tokens) : Admits place tokens
  | string (value : String) : Admits string [.string value]

/-- Operands with commas between them. -/
inductive Operand.Separated : List Operand → List Token → Prop
  | nil : Separated [] []
  | last {operand : Operand} {tokens : List Token} (h : operand.Admits tokens) :
      Separated [operand] tokens
  | cons {operand next : Operand} {others : List Operand} {tokens rest : List Token}
      (h : operand.Admits tokens) (hrest : Separated (next :: others) rest) :
      Separated (operand :: next :: others) (tokens ++ .comma :: rest)

/-! ## Numbers that fit -/

/-- An integer fits a number of bits exactly if it is between the bounds of its kind. -/
theorem Signedness.wrap_eq_iff (kind : Signedness) {bits : Nat} (hbits : 0 < bits) (n : Int) :
    kind.wrap bits n = n ↔ kind.lowest bits ≤ n ∧ n ≤ kind.highest bits := by
  cases kind with
  | unsigned =>
    have hpos : (0 : Int) < (2 ^ bits : Nat) := Int.natCast_pos.mpr (Nat.two_pow_pos bits)
    simp only [wrap, lowest, highest]
    constructor
    · intro h
      have hlow := Int.emod_nonneg n (Int.ne_of_gt hpos)
      have hhigh := Int.emod_lt_of_pos n hpos
      omega
    · rintro ⟨hlow, hhigh⟩
      exact Int.emod_eq_of_lt hlow (by omega)
  | signed =>
    have hhalf : 2 ^ bits = 2 * 2 ^ (bits - 1) := by
      rw [← Nat.pow_succ', Nat.succ_eq_add_one, Nat.sub_add_cancel hbits]
    have hpos := Nat.two_pow_pos (bits - 1)
    simp only [wrap, lowest, highest]
    rw [hhalf]
    generalize 2 ^ (bits - 1) = half at hpos
    constructor
    · intro h
      have hlow := Int.le_bmod (x := n) (m := 2 * half) (by omega)
      have hhigh := Int.bmod_lt (x := n) (m := 2 * half) (by omega)
      omega
    · rintro ⟨hlow, hhigh⟩
      exact Int.bmod_eq_of_le (by omega) (by omega)

theorem Imm.exists_value_iff (kind : Signedness) (bits : Nat) {n : Int} (hbits : 0 < bits) :
    (∃ imm : Imm kind bits, imm.value = n) ↔ kind.lowest bits ≤ n ∧ n ≤ kind.highest bits := by
  rw [← kind.wrap_eq_iff hbits]
  constructor
  · rintro ⟨imm, rfl⟩
    exact imm.fits
  · intro hfits
    exact ⟨⟨n, hfits⟩, rfl⟩

/-! ## What a reader has read -/

theorem Token.reg?_eq_some {token : Token} {r : Reg} (h : token.reg? = some r) :
    token = .register r := by
  cases token <;> cases h
  rfl

theorem Token.name?_eq_some {token : Token} {name : String} (h : token.name? = some name) :
    token = .identifier name := by
  cases token <;> cases h
  rfl

theorem Token.signed?_eq_some {token : Token} {n : Int} (h : token.signed? = some n) :
    token = .signed n := by
  cases token <;> cases h
  rfl

theorem Token.string?_eq_some {token : Token} {value : String} (h : token.string? = some value) :
    token = .string value := by
  cases token <;> cases h
  rfl

theorem Token.name?_of_integer {token : Token} {n : Int} (h : token.integer? = some n) :
    token.name? = none := by
  cases token <;> cases h <;> rfl

namespace LineReader

variable {α β : Type} {reader : LineReader α} {stop : Nat} {line rest : List Located} {a : α}
  {b : β}

/-- A reader takes something off the front of a line, gives a value, and leaves the rest. -/
abbrev Gives (reader : LineReader α) (stop : Nat) (line : List Located) (a : α)
    (rest : List Located) : Prop :=
  (reader.run stop).run line = .ok (a, rest)

theorem Gives.bind {next : α → LineReader β} {between : List Located}
    (h : reader.Gives stop line a between) (hnext : (next a).Gives stop between b rest) :
    (reader >>= next).Gives stop line b rest :=
  (bind_run h).trans hnext

theorem Gives.map {make : α → β} (h : reader.Gives stop line a rest) :
    (make <$> reader).Gives stop line (make a) rest :=
  map_run make h

theorem Gives.bind_inv {next : α → LineReader β} (h : (reader >>= next).Gives stop line b rest) :
    ∃ a between, reader.Gives stop line a between ∧ (next a).Gives stop between b rest := by
  have hbind : ((reader >>= next).run stop).run line =
      (reader.run stop).run line >>= fun found => ((next found.1).run stop).run found.2 := rfl
  have hresult := hbind.symm.trans h
  cases hread : (reader.run stop).run line with
  | error e =>
    rw [hread] at hresult
    exact nomatch hresult
  | ok found =>
    rw [hread] at hresult
    exact ⟨found.1, found.2, hread, hresult⟩

theorem gives_pure (stop : Nat) (line : List Located) (a : α) :
    (pure a : LineReader α).Gives stop line a line := rfl

theorem Gives.pure_inv {a' : α} (h : (pure a : LineReader α).Gives stop line a' rest) :
    a' = a ∧ rest = line := by
  have heq := Except.ok.inj (h.symm.trans (gives_pure stop line a))
  exact ⟨congrArg Prod.fst heq, congrArg Prod.snd heq⟩

theorem Gives.map_inv {make : α → β} (h : (make <$> reader).Gives stop line b rest) :
    ∃ a, reader.Gives stop line a rest ∧ b = make a := by
  have hbind : Gives (reader >>= fun a => pure (make a)) stop line b rest := h
  obtain ⟨a, between, ha, hpure⟩ := hbind.bind_inv
  obtain ⟨hb, rfl⟩ := hpure.pure_inv
  exact ⟨a, ha, hb⟩

theorem Gives.peek_inv {next : Option Token} (h : peek.Gives stop line next rest) :
    next = line.head?.map Located.token ∧ rest = line := by
  have heq := Except.ok.inj (h.symm.trans peek_run)
  exact ⟨congrArg Prod.fst heq, congrArg Prod.snd heq⟩

theorem not_gives_failAt {cause : ParseCause} {span : Span} :
    ¬(failAt cause span : LineReader α).Gives stop line a rest := nofun

theorem not_gives_expected {wanted : String} :
    ¬(expected wanted : LineReader α).Gives stop line a rest := by
  cases line with
  | nil => nofun
  | cons => nofun

/-! ### Single tokens -/

section Tokens

variable {kind : Token → Option α} {token : Token} {span : Span}

theorem Gives.accept?_some (h : (accept? kind).Gives stop line (some (a, span)) rest) :
    ∃ token, line = ⟨token, span⟩ :: rest ∧ kind token = some a := by
  cases line with
  | nil => exact nomatch h
  | cons first line =>
    obtain ⟨token, place⟩ := first
    unfold Gives at h
    rw [accept?_run] at h
    cases hkind : kind token with
    | none => rw [hkind] at h; cases h
    | some held =>
      rw [hkind] at h
      cases h
      exact ⟨token, rfl, hkind⟩

theorem Gives.accept?_none (h : (accept? kind).Gives stop line none rest) :
    rest = line ∧ ∀ first ∈ line.head?, kind first.token = none := by
  cases line with
  | nil => cases h; exact ⟨rfl, nofun⟩
  | cons first line =>
    obtain ⟨token, place⟩ := first
    unfold Gives at h
    rw [accept?_run] at h
    cases hkind : kind token with
    | none =>
      rw [hkind] at h
      cases h
      exact ⟨rfl, by simpa using hkind⟩
    | some held => rw [hkind] at h; cases h

theorem Gives.require_inv {wanted : String}
    (h : (require wanted kind).Gives stop line (a, span) rest) :
    ∃ token, line = ⟨token, span⟩ :: rest ∧ kind token = some a := by
  unfold require at h
  obtain ⟨found, between, haccept, h⟩ := h.bind_inv
  cases found with
  | none => exact absurd h not_gives_expected
  | some found =>
    obtain ⟨rfl, rfl⟩ := h.pure_inv
    exact haccept.accept?_some

theorem Gives.skip?_inv {found : Bool} (h : (skip? token).Gives stop line found rest) :
    if found then ∃ span, line = ⟨token, span⟩ :: rest
    else rest = line ∧ line.head?.map Located.token ≠ some token := by
  unfold skip? at h
  obtain ⟨accepted, between, haccept, h⟩ := h.bind_inv
  obtain ⟨rfl, rfl⟩ := h.pure_inv
  cases accepted with
  | none =>
    obtain ⟨hrest, hfirst⟩ := haccept.accept?_none
    refine ⟨hrest, fun htoken => ?_⟩
    obtain ⟨first, hhead, rfl⟩ := Option.map_eq_some_iff.mp htoken
    have hnone := hfirst first hhead
    simp at hnone
  | some found =>
    obtain ⟨held, hline, hkind⟩ := haccept.accept?_some
    have htoken : held = token := by
      by_contra hne
      rw [if_neg hne] at hkind
      exact nomatch hkind
    exact ⟨found.2, htoken ▸ hline⟩

theorem Gives.skip_inv {wanted : String} {u : Unit}
    (h : (skip wanted token).Gives stop line u rest) : ∃ span, line = ⟨token, span⟩ :: rest := by
  unfold skip at h
  obtain ⟨found, between, hskip, h⟩ := h.bind_inv
  have hfound := hskip.skip?_inv
  cases found with
  | false => exact absurd h not_gives_expected
  | true =>
    obtain ⟨-, rfl⟩ := h.pure_inv
    exact hfound

end Tokens

/-! ## Readers of operands -/

/-- A reader takes exactly what an operand is written with, if a comma follows or nothing. -/
structure Recognizes (reader : LineReader α) (operand : Operand) : Prop where
  complete (stop : Nat) {line : List Located} (h : operand.Admits (line.map Located.token))
    (rest : List Located) (hrest : ∀ first ∈ rest.head?, first.token = .comma) :
    ∃ a, reader.Gives stop (line ++ rest) a rest
  sound {stop : Nat} {line : List Located} {a : α} {rest : List Located}
    (h : reader.Gives stop line a rest) :
    ∃ front, line = front ++ rest ∧ operand.Admits (front.map Located.token)

theorem Recognizes.map {operand : Operand} (h : Recognizes reader operand) (make : α → β) :
    Recognizes (make <$> reader) operand where
  complete stop line h' rest hrest := by
    obtain ⟨a, ha⟩ := h.complete stop h' rest hrest
    exact ⟨make a, ha.map⟩
  sound h' := by
    obtain ⟨a, ha, -⟩ := h'.map_inv
    exact h.sound ha

theorem Gives.register_inv {r : Reg} (h : register.Gives stop line r rest) :
    ∃ span, line = ⟨.register r, span⟩ :: rest := by
  obtain ⟨⟨found, span⟩, between, hrequire, hpure⟩ := Gives.bind_inv h
  obtain ⟨hr, rfl⟩ := hpure.pure_inv
  obtain ⟨token, rfl, hkind⟩ := hrequire.require_inv
  rw [Token.reg?_eq_some hkind, hr]
  exact ⟨span, rfl⟩

theorem recognizes_register : Recognizes register .register where
  complete stop line h rest hrest := by
    generalize hline : line.map Located.token = tokens at h
    cases h with
    | register r => exact ⟨r, reads_register r stop line rest hline⟩
  sound {stop line a rest} h := by
    obtain ⟨span, rfl⟩ := h.register_inv
    exact ⟨[⟨.register a, span⟩], rfl, .register a⟩

/-! ### Numbers -/

theorem Gives.integer_inv {n : Int} {span : Span} (h : integer.Gives stop line (n, span) rest) :
    ∃ token, line = ⟨token, span⟩ :: rest ∧ token.integer? = some n :=
  h.require_inv

theorem recognizes_integerIn (low high : Int) :
    Recognizes (integerIn low high) (.number low high) where
  complete stop line h rest hrest := by
    generalize hline : line.map Located.token = tokens at h
    cases h with
    | number h hlow hhigh =>
      obtain ⟨span, rfl⟩ := line_of_token hline
      have hgives : ((integerIn low high).run stop).run ([⟨_, span⟩] ++ rest) = _ :=
        bind_run (integer_run h)
      simp only at hgives
      rw [if_pos ⟨hlow, hhigh⟩] at hgives
      exact ⟨_, hgives⟩
  sound {stop line a rest} h := by
    obtain ⟨⟨n, span⟩, between, hinteger, hcheck⟩ := Gives.bind_inv h
    obtain ⟨token, rfl, hkind⟩ := hinteger.integer_inv
    simp only at hcheck
    split at hcheck
    · next hbounds =>
      obtain ⟨-, rfl⟩ := hcheck.pure_inv
      exact ⟨[⟨token, span⟩], rfl, .number hkind hbounds.1 hbounds.2⟩
    · exact absurd hcheck not_gives_failAt

section

variable {kind : Signedness} {bits : Nat}

theorem Gives.toImmediate_inv {n : Int} {span : Span} {imm : Imm kind bits}
    (h : (toImmediate n span).Gives stop line imm rest) : imm.value = n ∧ rest = line := by
  unfold toImmediate at h
  cases hfits : (Imm.ofInt? n : Except ImmError (Imm kind bits)) with
  | ok found =>
    rw [hfits] at h
    obtain ⟨rfl, rfl⟩ := h.pure_inv
    exact ⟨Imm.ofInt?_eq_ok_iff.mp hfits, rfl⟩
  | error cause =>
    rw [hfits] at h
    exact absurd h not_gives_failAt

theorem recognizes_immediate (kind : Signedness) (bits : Nat) (hbits : 0 < bits) :
    Recognizes (immediate : LineReader (Imm kind bits))
      (.number (kind.lowest bits) (kind.highest bits)) where
  complete stop line h rest hrest := by
    generalize hline : line.map Located.token = tokens at h
    cases h with
    | number h hlow hhigh =>
      obtain ⟨span, rfl⟩ := line_of_token hline
      obtain ⟨imm, rfl⟩ := (Imm.exists_value_iff kind bits hbits).mpr ⟨hlow, hhigh⟩
      exact ⟨imm, reads_immediate h stop _ rest hline⟩
  sound {stop line a rest} h := by
    obtain ⟨⟨n, span⟩, between, hinteger, hfits⟩ := Gives.bind_inv h
    obtain ⟨token, rfl, hkind⟩ := hinteger.integer_inv
    obtain ⟨hvalue, rfl⟩ := hfits.toImmediate_inv
    have hbounds := (Imm.exists_value_iff kind bits hbits).mp ⟨a, hvalue⟩
    exact ⟨[⟨token, span⟩], rfl, .number hkind hbounds.1 hbounds.2⟩

end

/-- The immediate of an operation has a sign, unless it is extended with zeros. -/
theorem recognizes_operationImmediate (op : ImmOp) :
    Recognizes (operationImmediate op)
      (if op.zeroExtends then .number 0 0xFFFF else .number (-0x8000) 0x7FFF) := by
  unfold operationImmediate
  cases op.zeroExtends with
  | true => exact recognizes_immediate .unsigned 16 (by decide)
  | false =>
    have himmediate := recognizes_immediate .signed 16 (by decide)
    exact himmediate.map fun imm => Imm.truncate imm.value

/-! ### Labels and addresses -/

theorem gives_label? (name : String) (span : Span) :
    label?.Gives stop (⟨.identifier name, span⟩ :: rest) (some ⟨name, span.start⟩) rest :=
  Gives.bind (accept?_some (a := name) rfl) (gives_pure _ _ _)

theorem Gives.label?_some {l : Label} (h : label?.Gives stop line (some l) rest) :
    ∃ span, line = ⟨.identifier l.name, span⟩ :: rest := by
  obtain ⟨found, between, haccept, hpure⟩ := Gives.bind_inv h
  obtain ⟨hl, rfl⟩ := hpure.pure_inv
  obtain ⟨⟨name, span⟩, rfl, rfl⟩ := Option.map_eq_some_iff.mp hl.symm
  obtain ⟨token, rfl, hkind⟩ := haccept.accept?_some
  obtain rfl := Token.name?_eq_some hkind
  exact ⟨span, rfl⟩

theorem Gives.label?_none (h : label?.Gives stop line none rest) : rest = line := by
  obtain ⟨found, between, haccept, hpure⟩ := Gives.bind_inv h
  obtain ⟨hl, rfl⟩ := hpure.pure_inv
  obtain rfl := Option.map_eq_none_iff.mp hl.symm
  exact haccept.accept?_none.1

theorem recognizes_label : Recognizes label .label where
  complete stop line h rest hrest := by
    generalize hline : line.map Located.token = tokens at h
    cases h with
    | label name =>
      obtain ⟨span, rfl⟩ := line_of_token hline
      exact ⟨_, Gives.bind (gives_label? name span) (gives_pure _ _ _)⟩
  sound {stop line a rest} h := by
    obtain ⟨found, between, hlabel, hnext⟩ := Gives.bind_inv h
    cases found with
    | none => exact absurd hnext not_gives_expected
    | some l =>
      obtain ⟨-, rfl⟩ := hnext.pure_inv
      obtain ⟨span, rfl⟩ := hlabel.label?_some
      exact ⟨[⟨.identifier l.name, span⟩], rfl, .label l.name⟩

/-- The tokens of a label with its offset. -/
theorem Gives.labelOffset_inv {offset : Int} (h : labelOffset.Gives stop line offset rest)
    (name : String) :
    ∃ front, line = front ++ rest ∧
      Operand.address.Admits (.identifier name :: front.map Located.token) := by
  obtain ⟨found, between, hskip, hnext⟩ := Gives.bind_inv h
  have hfound := hskip.skip?_inv
  cases found with
  | true =>
    obtain ⟨span, rfl⟩ := hfound
    obtain ⟨front, rfl, hfront⟩ := (recognizes_integerIn _ _).sound hnext
    exact ⟨⟨.plus, span⟩ :: front, rfl, .labelPlus name hfront⟩
  | false =>
    obtain ⟨rfl, -⟩ := hfound
    obtain ⟨signed, behind, haccept, hpure⟩ := Gives.bind_inv hnext
    obtain ⟨-, rfl⟩ := hpure.pure_inv
    cases signed with
    | none =>
      obtain ⟨rfl, -⟩ := haccept.accept?_none
      exact ⟨[], rfl, .labelAddress name⟩
    | some signed =>
      obtain ⟨token, rfl, hkind⟩ := haccept.accept?_some
      obtain rfl := Token.signed?_eq_some hkind
      exact ⟨[⟨.signed signed.1, signed.2⟩], rfl, .labelMinus name signed.1⟩

/-- Nothing but a comma may follow, so no offset does. -/
theorem gives_labelOffset_nothing (stop : Nat)
    (hrest : ∀ first ∈ rest.head?, first.token = .comma) :
    labelOffset.Gives stop rest 0 rest := by
  cases rest with
  | nil => rfl
  | cons first rest =>
    obtain ⟨token, span⟩ := first
    obtain rfl : token = .comma := hrest _ rfl
    exact Gives.bind (Gives.bind (accept?_none rfl) (gives_pure _ _ _))
      (Gives.bind (accept?_none rfl) (gives_pure _ _ _))

theorem recognizes_addressExpr : Recognizes addressExpr .address where
  complete stop line h rest hrest := by
    generalize hline : line.map Located.token = tokens at h
    cases h with
    | labelAddress name =>
      obtain ⟨span, rfl⟩ := line_of_token hline
      have hoffset := gives_labelOffset_nothing stop hrest
      exact ⟨_, Gives.bind (gives_label? name span) (Gives.bind hoffset (gives_pure _ _ _))⟩
    | labelPlus name h =>
      obtain ⟨⟨written, span⟩, others, rfl, rfl, hothers⟩ := List.map_eq_cons_iff.mp hline
      obtain ⟨⟨sign, place⟩, digits, rfl, rfl, rfl⟩ := List.map_eq_cons_iff.mp hothers
      obtain ⟨offset, hoffset⟩ := (recognizes_integerIn _ _).complete stop h rest hrest
      have hplus : labelOffset.Gives stop (⟨.plus, place⟩ :: (digits ++ rest)) offset rest :=
        Gives.bind (reads_skip? .plus stop [⟨.plus, place⟩] (digits ++ rest) rfl) hoffset
      exact ⟨_, Gives.bind (gives_label? name span) (Gives.bind hplus (gives_pure _ _ _))⟩
    | labelMinus name offset =>
      obtain ⟨⟨written, span⟩, others, rfl, rfl, hothers⟩ := List.map_eq_cons_iff.mp hline
      obtain ⟨place, rfl⟩ := line_of_token hothers
      have hminus : labelOffset.Gives stop (⟨.signed offset, place⟩ :: rest) offset rest :=
        Gives.bind (Gives.bind (accept?_none rfl) (gives_pure _ _ _))
          (Gives.bind (accept?_some (a := offset) rfl) (gives_pure _ _ _))
      exact ⟨_, Gives.bind (gives_label? name span) (Gives.bind hminus (gives_pure _ _ _))⟩
    | absolute h =>
      exact ⟨_, reads_addressExpr (Token.name?_of_integer h) h stop line rest hline⟩
  sound {stop line a rest} h := by
    obtain ⟨found, between, hlabel, hnext⟩ := Gives.bind_inv h
    cases found with
    | some l =>
      obtain ⟨span, rfl⟩ := hlabel.label?_some
      obtain ⟨offset, behind, hoffset, hpure⟩ := Gives.bind_inv hnext
      obtain ⟨-, rfl⟩ := hpure.pure_inv
      obtain ⟨front, rfl, hfront⟩ := hoffset.labelOffset_inv l.name
      exact ⟨⟨.identifier l.name, span⟩ :: front, rfl, hfront⟩
    | none =>
      obtain rfl := hlabel.label?_none
      obtain ⟨accepted, behind, haccept, hnumber⟩ := Gives.bind_inv hnext
      cases accepted with
      | none => exact absurd hnumber not_gives_expected
      | some accepted =>
        obtain ⟨-, rfl⟩ := hnumber.pure_inv
        obtain ⟨token, rfl, hkind⟩ := haccept.accept?_some
        exact ⟨[⟨token, accepted.2⟩], rfl, .absolute hkind⟩

theorem recognizes_branchTarget : Recognizes branchTarget .target where
  complete stop line h rest hrest := by
    generalize hline : line.map Located.token = tokens at h
    cases h with
    | labelTarget name =>
      obtain ⟨span, rfl⟩ := line_of_token hline
      exact ⟨_, Gives.bind (gives_label? name span) (gives_pure _ _ _)⟩
    | words h =>
      cases h with
      | number h hlow hhigh =>
        obtain ⟨words, rfl⟩ :=
          (Imm.exists_value_iff .signed 16 (by decide)).mpr ⟨hlow, hhigh⟩
        exact ⟨_, reads_branchTarget (Token.name?_of_integer h) h stop line rest hline⟩
  sound {stop line a rest} h := by
    obtain ⟨found, between, hlabel, hnext⟩ := Gives.bind_inv h
    cases found with
    | some l =>
      obtain ⟨span, rfl⟩ := hlabel.label?_some
      obtain ⟨-, rfl⟩ := hnext.pure_inv
      exact ⟨[⟨.identifier l.name, span⟩], rfl, .labelTarget l.name⟩
    | none =>
      obtain rfl := hlabel.label?_none
      obtain ⟨accepted, behind, haccept, hnumber⟩ := Gives.bind_inv hnext
      cases accepted with
      | none => exact absurd hnumber not_gives_expected
      | some accepted =>
        obtain ⟨n, span⟩ := accepted
        obtain ⟨words, after, hwords, hpure⟩ := Gives.bind_inv hnumber
        obtain ⟨-, rfl⟩ := hpure.pure_inv
        obtain ⟨hvalue, rfl⟩ := hwords.toImmediate_inv
        obtain ⟨hlow, hhigh⟩ := (Imm.exists_value_iff .signed 16 (by decide)).mp ⟨words, hvalue⟩
        obtain ⟨token, rfl, hkind⟩ := haccept.accept?_some
        exact ⟨[⟨token, span⟩], rfl, .words (.number hkind hlow hhigh)⟩

/-! ### Places in memory -/

theorem Gives.base_inv {r : Reg} (h : base.Gives stop line r rest) :
    ∃ front, line = front ++ rest ∧
      front.map Located.token = [.leftParen, .register r, .rightParen] := by
  obtain ⟨_, between, hleft, hregister⟩ := Gives.bind_inv h
  obtain ⟨left, rfl⟩ := hleft.skip_inv
  obtain ⟨found, behind, hfound, hright⟩ := hregister.bind_inv
  obtain ⟨_, after, hskip, hpure⟩ := hright.bind_inv
  obtain ⟨hr, rfl⟩ := hpure.pure_inv
  obtain ⟨right, rfl⟩ := hskip.skip_inv
  obtain ⟨span, rfl⟩ := hfound.register_inv
  rw [hr]
  exact ⟨[⟨.leftParen, left⟩, ⟨.register found, span⟩, ⟨.rightParen, right⟩], rfl, rfl⟩

/-- What follows the number of a memory operand tells whether it is an offset. -/
def numberedPlace : LineReader MemOperand := do
  let (n, span) ← integer
  if (← peek) = some .leftParen then
    let offset ← toImmediate n span
    return .based offset (← base)
  else return .direct (.value (Word.ofInt n))

section

variable {span : Span}

theorem memOperand_run_leftParen :
    (memOperand.run stop).run (⟨.leftParen, span⟩ :: line) =
      ((MemOperand.based (Imm.truncate 0) <$> base).run stop).run (⟨.leftParen, span⟩ :: line) := by
  unfold memOperand
  rw [bind_run peek_run]
  rfl

theorem memOperand_run_identifier {name : String} :
    (memOperand.run stop).run (⟨.identifier name, span⟩ :: line) =
      ((MemOperand.direct <$> addressExpr).run stop).run (⟨.identifier name, span⟩ :: line) := by
  unfold memOperand
  rw [bind_run peek_run]
  rfl

theorem memOperand_run_integer {token : Token} {n : Int} (h : token.integer? = some n) :
    (memOperand.run stop).run (⟨token, span⟩ :: line) =
      (numberedPlace.run stop).run (⟨token, span⟩ :: line) := by
  unfold memOperand
  rw [bind_run peek_run]
  cases token with
  | unsigned | signed => rfl
  | _ => exact nomatch h

end

theorem Gives.numberedPlace_inv {operand : MemOperand}
    (h : numberedPlace.Gives stop line operand rest) :
    ∃ front, line = front ++ rest ∧ Operand.place.Admits (front.map Located.token) := by
  obtain ⟨⟨n, span⟩, between, hinteger, hpeeks⟩ := Gives.bind_inv h
  obtain ⟨token, rfl, hkind⟩ := hinteger.integer_inv
  obtain ⟨next, behind, hpeek, hchoice⟩ := hpeeks.bind_inv
  obtain ⟨-, rfl⟩ := hpeek.peek_inv
  split at hchoice
  · obtain ⟨offset, _, hoffset, hbase⟩ := hchoice.bind_inv
    obtain ⟨hvalue, rfl⟩ := hoffset.toImmediate_inv
    obtain ⟨hlow, hhigh⟩ := (Imm.exists_value_iff .signed 16 (by decide)).mp ⟨offset, hvalue⟩
    obtain ⟨r, hr, -⟩ := Gives.map_inv hbase
    obtain ⟨front, rfl, hfront⟩ := hr.base_inv
    refine ⟨⟨token, span⟩ :: front, rfl, ?_⟩
    rw [List.map_cons, hfront]
    exact .based (.number hkind hlow hhigh) r
  · obtain ⟨-, rfl⟩ := hchoice.pure_inv
    exact ⟨[⟨token, span⟩], rfl, .direct (.absolute hkind)⟩

theorem gives_numberedPlace {token : Token} {n : Int} {span : Span}
    (h : token.integer? = some n) (hrest : ∀ first ∈ rest.head?, first.token = .comma) :
    numberedPlace.Gives stop (⟨token, span⟩ :: rest) (.direct (.value (Word.ofInt n))) rest := by
  have hnext : ¬rest.head?.map Located.token = some .leftParen := by
    intro hparen
    obtain ⟨first, hhead, hfirst⟩ := Option.map_eq_some_iff.mp hparen
    exact nomatch hfirst.symm.trans (hrest first hhead)
  refine Gives.bind (integer_run h) (Gives.bind peek_run ?_)
  rw [if_neg hnext]
  exact gives_pure _ _ _

/-- An address, where a place in memory is wanted. -/
theorem gives_memOperand_direct (h : Operand.address.Admits (line.map Located.token))
    (hrest : ∀ first ∈ rest.head?, first.token = .comma) :
    ∃ operand, memOperand.Gives stop (line ++ rest) operand rest := by
  obtain ⟨operand, hoperand⟩ :=
    (recognizes_addressExpr.map MemOperand.direct).complete stop h rest hrest
  generalize hline : line.map Located.token = tokens at h
  cases h with
  | absolute h =>
    obtain ⟨span, rfl⟩ := line_of_token hline
    exact ⟨_, (memOperand_run_integer h).trans (gives_numberedPlace h hrest)⟩
  | _ =>
    obtain ⟨⟨written, span⟩, others, rfl, rfl, -⟩ := List.map_eq_cons_iff.mp hline
    exact ⟨operand, memOperand_run_identifier.trans hoperand⟩

theorem recognizes_memOperand : Recognizes memOperand .place where
  complete stop line h rest hrest := by
    generalize hline : line.map Located.token = tokens at h
    cases h with
    | base r =>
      obtain ⟨⟨written, span⟩, others, rfl, rfl, -⟩ := List.map_eq_cons_iff.mp hline
      have hbase := (reads_base r).map (MemOperand.based (Imm.truncate 0)) stop _ rest hline
      exact ⟨_, memOperand_run_leftParen.trans hbase⟩
    | based h r =>
      cases h with
      | number h hlow hhigh =>
        obtain ⟨offset, rfl⟩ := (Imm.exists_value_iff .signed 16 (by decide)).mpr ⟨hlow, hhigh⟩
        exact ⟨_, reads_memOperand h stop line rest hline⟩
    | direct h => exact gives_memOperand_direct (hline ▸ h) hrest
  sound {stop line a rest} h := by
    cases line with
    | nil => exact absurd h nofun
    | cons first line =>
      obtain ⟨token, span⟩ := first
      cases token with
      | leftParen =>
        obtain ⟨r, hr, -⟩ := Gives.map_inv (memOperand_run_leftParen.symm.trans h)
        obtain ⟨front, hfront, htokens⟩ := hr.base_inv
        exact ⟨front, hfront, htokens ▸ .base r⟩
      | identifier name =>
        obtain ⟨front, hfront, htokens⟩ := (recognizes_addressExpr.map MemOperand.direct).sound
          (memOperand_run_identifier.symm.trans h)
        exact ⟨front, hfront, .direct htokens⟩
      | unsigned value =>
        exact Gives.numberedPlace_inv ((memOperand_run_integer rfl).symm.trans h)
      | signed value =>
        exact Gives.numberedPlace_inv ((memOperand_run_integer rfl).symm.trans h)
      | _ => exact absurd h nofun

theorem recognizes_string : Recognizes string .string where
  complete stop line h rest hrest := by
    generalize hline : line.map Located.token = tokens at h
    cases h with
    | string value =>
      obtain ⟨span, rfl⟩ := line_of_token hline
      exact ⟨value, Gives.bind (require_run "string literal" rfl) (gives_pure _ _ _)⟩
  sound {stop line a rest} h := by
    obtain ⟨⟨value, span⟩, between, hrequire, hpure⟩ := Gives.bind_inv h
    obtain ⟨-, rfl⟩ := hpure.pure_inv
    obtain ⟨token, rfl, hkind⟩ := hrequire.require_inv
    obtain rfl := Token.string?_eq_some hkind
    exact ⟨[⟨.string value, span⟩], rfl, .string value⟩

/-! ## Readers of all operands -/

/-- A reader takes all that is left of a line exactly if that has a certain form. -/
def Fills (reader : LineReader α) (form : List Token → Prop) : Prop :=
  ∀ stop line, (∃ a, reader.Gives stop line a []) ↔ form (line.map Located.token)

variable {form : List Token → Prop} {operand next : Operand} {others : List Operand}

theorem Fills.map (h : Fills reader form) (make : α → β) : Fills (make <$> reader) form := by
  intro stop line
  rw [← h stop line]
  constructor
  · rintro ⟨b, hb⟩
    obtain ⟨a, ha, -⟩ := hb.map_inv
    exact ⟨a, ha⟩
  · rintro ⟨a, ha⟩
    exact ⟨make a, ha.map⟩

theorem fills_pure (a : α) : Fills (pure a) (Operand.Separated []) := by
  intro stop line
  constructor
  · rintro ⟨a', h⟩
    obtain ⟨-, rfl⟩ := h.pure_inv
    exact .nil
  · intro h
    generalize hline : line.map Located.token = tokens at h
    cases h with
    | nil =>
      obtain rfl := List.map_eq_nil_iff.mp hline
      exact ⟨a, gives_pure _ _ a⟩

theorem Recognizes.fills (h : Recognizes reader operand) :
    Fills reader (Operand.Separated [operand]) := by
  intro stop line
  constructor
  · rintro ⟨a, ha⟩
    obtain ⟨front, rfl, hfront⟩ := h.sound ha
    rw [List.append_nil]
    exact .last hfront
  · intro hline
    cases hline with
    | last hadmits =>
      obtain ⟨a, ha⟩ := h.complete stop hadmits [] nofun
      rw [List.append_nil] at ha
      exact ⟨a, ha⟩

/-- A register comes first, with a comma behind it. -/
theorem fills_registerComma {next : Reg → LineReader β} {second : Operand}
    (h : ∀ r, Fills (next r) (Operand.Separated (second :: others))) :
    Fills (registerComma >>= next) (Operand.Separated (.register :: second :: others)) := by
  intro stop line
  constructor
  · rintro ⟨b, hb⟩
    obtain ⟨r, between, hregister, hnext⟩ := hb.bind_inv
    obtain ⟨found, behind, hfound, hcomma⟩ := Gives.bind_inv hregister
    obtain ⟨u, after, hskip, hpure⟩ := hcomma.bind_inv
    obtain ⟨-, rfl⟩ := hpure.pure_inv
    obtain ⟨place, rfl⟩ := Gives.skip_inv hskip
    obtain ⟨span, rfl⟩ := hfound.register_inv
    exact .cons (.register found) ((h r stop between).mp ⟨b, hnext⟩)
  · intro hline
    generalize htokens : line.map Located.token = tokens at hline
    cases hline with
    | cons hadmits hrest =>
      cases hadmits with
      | register r =>
        obtain ⟨front, between, rfl, hfront, hbetween⟩ := List.map_eq_append_iff.mp htokens
        obtain ⟨comma, rest, rfl, hcomma, rfl⟩ := List.map_eq_cons_iff.mp hbetween
        obtain ⟨b, hb⟩ := (h r stop rest).mpr hrest
        have hregister := reads_registerComma r stop (front ++ [comma]) rest
          (by rw [List.map_append, hfront, List.map_singleton, hcomma]; rfl)
        rw [List.append_assoc, List.singleton_append] at hregister
        exact ⟨b, Gives.bind hregister hb⟩

theorem fills_withRegister {reader : LineReader α} (make : Reg → α → SourceInstr)
    (h : Recognizes reader operand) :
    Fills (withRegister make reader) (Operand.Separated [.register, operand]) :=
  fills_registerComma fun r => h.fills.map (make r)

/-! ### Lists -/

theorem separated_last {tokens : List Token} :
    Operand.Separated [operand] tokens ↔ operand.Admits tokens := by
  constructor
  · intro h
    cases h with
    | last h => exact h
  · exact .last

/-- The items of a list that stand behind the first one. -/
theorem Gives.furtherItems_inv {item : LineReader α} (h : Recognizes item operand) {fuel : Nat}
    {found : List α} (hfound : (furtherItems item fuel).Gives stop line found [])
    {front : List Token} (hfront : operand.Admits front) :
    ∃ more, Operand.Separated (operand :: List.replicate more operand)
      (front ++ line.map Located.token) := by
  induction fuel generalizing line found front with
  | zero =>
    obtain ⟨-, rfl⟩ := Gives.pure_inv hfound
    exact ⟨0, by simpa using Operand.Separated.last hfront⟩
  | succ fuel ih =>
    obtain ⟨comes, between, hskip, hnext⟩ := Gives.bind_inv hfound
    have hcomes := hskip.skip?_inv
    cases comes with
    | false =>
      obtain ⟨-, rfl⟩ := Gives.pure_inv hnext
      obtain ⟨rfl, -⟩ := hcomes
      exact ⟨0, by simpa using Operand.Separated.last hfront⟩
    | true =>
      obtain ⟨span, rfl⟩ := hcomes
      obtain ⟨a, behind, ha, hmore⟩ := Gives.bind_inv hnext
      obtain ⟨others, hothers, -⟩ := Gives.map_inv hmore
      obtain ⟨item, rfl, hitem⟩ := h.sound ha
      obtain ⟨more, hrest⟩ := ih hothers hitem
      refine ⟨more + 1, ?_⟩
      rw [List.map_cons, List.map_append]
      exact .cons hfront hrest

/-- The number of attempts is enough if it is the number of tokens that are left. -/
theorem gives_items {item : LineReader α} (h : Recognizes item operand) (stop : Nat) {more : Nat}
    (hline : Operand.Separated (operand :: List.replicate more operand)
      (line.map Located.token)) :
    ∃ a between, item.Gives stop line a between ∧
      ∀ fuel, between.length ≤ fuel →
        ∃ found, (furtherItems item fuel).Gives stop between found [] := by
  induction more generalizing line with
  | zero =>
    obtain ⟨a, ha⟩ := (h.fills stop line).mpr hline
    refine ⟨a, [], ha, fun fuel _ => ?_⟩
    cases fuel with
    | zero => exact ⟨[], rfl⟩
    | succ fuel => exact ⟨[], rfl⟩
  | succ more ih =>
    generalize htokens : line.map Located.token = tokens at hline
    cases hline with
    | cons hadmits hrest =>
      obtain ⟨front, behind, rfl, rfl, hbehind⟩ := List.map_eq_append_iff.mp htokens
      obtain ⟨⟨token, span⟩, rest, rfl, rfl, rfl⟩ := List.map_eq_cons_iff.mp hbehind
      obtain ⟨a, ha⟩ := h.complete stop hadmits (⟨.comma, span⟩ :: rest) (by simp)
      refine ⟨a, _, ha, fun fuel hfuel => ?_⟩
      obtain ⟨a', between, ha', hmore⟩ := ih hrest
      obtain ⟨taken, rfl, -⟩ := h.sound ha'
      cases fuel with
      | zero => exact absurd hfuel (Nat.not_succ_le_zero _)
      | succ fuel =>
        have hroom : between.length ≤ fuel := by
          rw [List.length_cons, List.length_append] at hfuel
          omega
        obtain ⟨found, hfound⟩ := hmore fuel hroom
        have hskip := reads_skip? .comma stop [⟨.comma, span⟩] (taken ++ between) rfl
        exact ⟨_, Gives.bind hskip (Gives.bind ha' (Gives.bind hfound (gives_pure _ _ _)))⟩

theorem fills_items {item : LineReader α} (h : Recognizes item operand) :
    Fills (items item) fun tokens =>
      ∃ more, Operand.Separated (operand :: List.replicate more operand) tokens := by
  intro stop line
  constructor
  · rintro ⟨found, hfound⟩
    obtain ⟨a, between, ha, hmore⟩ := Gives.bind_inv hfound
    obtain ⟨left, behind, hleft, hmore⟩ := hmore.bind_inv
    obtain ⟨further, hfurther, -⟩ := Gives.map_inv hmore
    obtain ⟨rfl, rfl⟩ : left = between ∧ behind = between := by
      cases hleft
      exact ⟨rfl, rfl⟩
    obtain ⟨front, rfl, hfront⟩ := h.sound ha
    rw [List.map_append]
    exact hfurther.furtherItems_inv h hfront
  · rintro ⟨more, hline⟩
    obtain ⟨a, between, ha, hmore⟩ := gives_items h stop hline
    obtain ⟨further, hfurther⟩ := hmore between.length (Nat.le_refl _)
    have hleft : (get : LineReader (List Located)).Gives stop between between between := rfl
    exact ⟨_, Gives.bind ha (Gives.bind hleft (Gives.bind hfurther (gives_pure _ _ _)))⟩

end LineReader

end MipsLab
