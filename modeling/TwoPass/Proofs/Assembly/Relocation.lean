import TwoPass.Proofs.Assembly.Offsets
import TwoPass.Proofs.Assembly.Sessions
import TwoPass.Proofs.Source.Operands

set_option autoImplicit false

/-!
# Relocation

Two sources that begin with a START statement and differ only in its operand are assembled in
lockstep.  The location counters of the two runs are always the same distance apart, so the
addresses of statements and symbols are, and so are the addresses that instructions refer to.
Nothing else depends on where a program starts: as long as every address fits four digits, codes
have the same lengths and are grouped in the same way.
-/

namespace TwoPass

open Object (Text Grouping codeSize)

/-! ## Moved addresses -/

/-- An address is another one moved by a distance, in numbers that do not wrap around. -/
def Displaced (distance : Int) (x y : Address) : Prop := (y.toNat : Int) = x.toNat + distance

/-- The same statement, at an address that is moved. -/
structure Placed.Moved (distance : Int) (p q : Placed) : Prop where
  /-- it is the same statement -/
  statement : q.toStatement = p.toStatement
  /-- it has an address in both runs -/
  address : ∃ x y, p.address = some x ∧ q.address = some y ∧ Displaced distance x y

/-- The same symbol, bound to an address that is moved. -/
structure Symbol.Moved (distance : Int) (s t : Symbol) : Prop where
  /-- it has the same name -/
  name : t.name = s.name
  /-- its label stands in the same place -/
  position : t.position = s.position
  /-- its address is moved -/
  address : Displaced distance s.address t.address

variable {distance : Int}

/-! ## The first pass -/

/-- Counters that are some distance apart stay so, and give the same statements addresses that far
apart. -/
theorem Counter.Places.moved {c c' last last' : Counter} {ps qs : List Placed}
    (h : Counter.Places c ps last) (h' : Counter.Places c' qs last')
    (hsame : qs.map Placed.toStatement = ps.map Placed.toStatement)
    (hsettled : c.Settled ps) (hsettled' : c'.Settled qs)
    (hlocation : Displaced distance c.location c'.location) :
    List.Forall₂ (Placed.Moved distance) ps qs ∧
    Displaced distance last.location last'.location := by
  induction h generalizing c' qs with
  | nil c =>
    obtain rfl : qs = [] := List.map_eq_nil_iff.mp hsame
    cases h' with
    | nil => exact ⟨.nil, hlocation⟩
  | @cons c next last p rest hstep haddress _ ih =>
    cases h' with
    | nil => simp at hsame
    | @cons _ next' _ q rest' hstep' haddress' hafter' =>
      obtain ⟨hq, hrest⟩ := List.cons.inj hsame
      obtain ⟨hplace, ⟨size, hsize, hmoves⟩, _, hnext⟩ := hsettled.step_cases hstep
      obtain ⟨hplace', ⟨size', hsize', hmoves'⟩, _, hnext'⟩ := hsettled'.step_cases hstep'
      -- The same statement moves both counters on by the same size.
      obtain rfl : size = size' := by
        rw [hq, hsize] at hsize'
        exact Except.ok.inj hsize'
      have hlocations : Displaced distance next.location next'.location := by
        unfold Displaced at hlocation ⊢
        omega
      obtain ⟨hpairs, hlast⟩ := ih hafter' hrest hnext hnext' hlocations
      exact ⟨.cons ⟨hq, _, _, haddress.trans hplace, haddress'.trans hplace',
        hlocation⟩ hpairs, hlast⟩

/-- A START statement in front sets the counter to its operand. -/
theorem Layout.exists_tail {start : Statement} {rest : List Statement} {layout : Layout}
    (hstart : start.operation = .start) (h : Layout.ofStatements (start :: rest) = .ok layout) :
    ∃ c tail, layout.statements = { start with address := none } :: tail ∧
      tail.map Placed.toStatement = rest ∧ Counter.Places c tail layout.counter ∧ c.Settled tail ∧
      c.start = c.location ∧ c.location.toNat = Numeral.value 16 start.operand := by
  obtain ⟨hplaces, hmap⟩ := Layout.places_of_extend h
  have hbegins : Counter.initial.begins start = true := by
    simp [Counter.begins, Counter.initial, hstart]
  obtain ⟨statements, counter⟩ := layout
  cases hplaces with
  | nil => simp at hmap
  | @cons _ next _ p tail hstep haddress hafter =>
    obtain ⟨hp, htail⟩ := List.cons.inj hmap
    obtain ⟨s, placed⟩ := p
    obtain rfl : s = start := hp
    obtain rfl : placed = none := haddress.trans (if_pos hbegins)
    rw [Counter.step, if_pos hbegins] at hstep
    obtain ⟨address, hread, rfl⟩ := map_eq_ok_iff.mp hstep
    exact ⟨_, tail, rfl, htail, hafter, Or.inl rfl, rfl,
      (Statement.startAddress_eq_ok_iff.mp hread).2.1.symm⟩

/-- How far a program moves if its START statement gets another operand. -/
def displacement (start : Statement) (operand : Bytes) : Int :=
  (Numeral.value 16 operand : Int) - Numeral.value 16 start.operand

/-- The first pass over a source with another start moves every address and keeps the length. -/
theorem Layout.moved {start : Statement} {operand : Bytes} {rest : List Statement}
    {layout layout' : Layout}
    (hstart : start.operation = .start) (h : Layout.ofStatements (start :: rest) = .ok layout)
    (h' : Layout.ofStatements ({ start with operand := operand } :: rest) = .ok layout') :
    ∃ ps qs, layout.statements = { start with address := none } :: ps ∧
      layout'.statements = { start with operand := operand, address := none } :: qs ∧
      List.Forall₂ (Placed.Moved (displacement start operand)) ps qs ∧
      Displaced (displacement start operand) layout.start layout'.start ∧
      layout'.length = layout.length := by
  obtain ⟨c, ps, hstatements, hps, hplaces, hsettled, horigin, hvalue⟩ :=
    Layout.exists_tail hstart h
  have hstart' : ({ start with operand := operand } : Statement).operation = .start := hstart
  obtain ⟨c', qs, hstatements', hqs, hplaces', hsettled', horigin', hvalue'⟩ :=
    Layout.exists_tail hstart' h'
  have hlocation : Displaced (displacement start operand) c.location c'.location := by
    change c'.location.toNat = Numeral.value 16 operand at hvalue'
    unfold Displaced displacement
    rw [hvalue, hvalue']
    omega
  obtain ⟨hmoved, hlast⟩ := hplaces.moved hplaces' (hqs.trans hps.symm) hsettled hsettled' hlocation
  have hbegin := hplaces.start_eq hsettled
  have hbegin' := hplaces'.start_eq hsettled'
  have hle := ((Layout.places_of_extend h).1.counts Counter.Counts.initial).start_le
  have hle' := ((Layout.places_of_extend h').1.counts Counter.Counts.initial).start_le
  have horigins : Displaced (displacement start operand) layout.start layout'.start := by
    rw [Layout.start, Layout.start, hbegin, hbegin', horigin, horigin']
    exact hlocation
  refine ⟨ps, qs, hstatements, hstatements', hmoved, horigins, ?_⟩
  rw [← UInt32.toNat_inj, Layout.length, Layout.length, UInt32.toNat_sub_of_le _ _ hle,
    UInt32.toNat_sub_of_le _ _ hle']
  unfold Displaced Layout.start at horigins
  unfold Displaced at hlast
  omega

/-! ## Scopes -/

namespace Symbol

/-- A name is found in both lists of symbols or in none. -/
theorem find?_moved {symbols symbols' : List Symbol}
    (h : List.Forall₂ (Moved distance) symbols symbols') (name : Bytes) :
    (find? symbols name = none ∧ find? symbols' name = none) ∨
      ∃ s t, find? symbols name = some s ∧ find? symbols' name = some t ∧ s.Moved distance t := by
  induction h with
  | nil => exact Or.inl ⟨rfl, rfl⟩
  | @cons s t _ _ hst _ ih =>
    by_cases hs : s.name = name
    · refine Or.inr ⟨s, t, ?_, ?_, hst⟩
      · simp [find?, hs]
      · simp [find?, hst.name, hs]
    · have hskip : ∀ more, find? (s :: more) name = find? more name := by simp [find?, hs]
      have hskip' : ∀ more, find? (t :: more) name = find? more name := by
        simp [find?, hst.name, hs]
      rw [hskip, hskip']
      exact ih

theorem lookup_moved {symbols symbols' : List Symbol}
    (h : List.Forall₂ (Moved distance) symbols symbols') (name : Bytes) :
    (lookup symbols name = none ∧ lookup symbols' name = none) ∨
      ∃ x y, lookup symbols name = some x ∧ lookup symbols' name = some y ∧
        Displaced distance x y := by
  rcases find?_moved h name with ⟨hnone, hnone'⟩ | ⟨s, t, hs, ht, hst⟩
  · exact Or.inl ⟨by simp [lookup, hnone], by simp [lookup, hnone']⟩
  · exact Or.inr ⟨s.address, t.address, by simp [lookup, hs], by simp [lookup, ht], hst.address⟩

end Symbol

/-- The same scope, with its symbols moved. -/
structure Scope.Moved (distance : Int) (scope scope' : Scope) : Prop where
  /-- the symbols are moved -/
  symbols : List.Forall₂ (Symbol.Moved distance) scope.symbols scope'.symbols
  /-- the same duplicates are recorded -/
  duplicates : scope'.duplicates = scope.duplicates

/-- Defining the same symbol keeps scopes the same. -/
theorem Scope.Moved.define {scope scope' : Scope} (h : scope.Moved distance scope') {s t : Symbol}
    (hst : s.Moved distance t) : (scope.define s).Moved distance (scope'.define t) := by
  unfold Scope.define
  rw [hst.name]
  rcases Symbol.find?_moved h.symbols s.name with ⟨hnone, hnone'⟩ |
    ⟨first, first', hfirst, hfirst', hsame⟩
  · rw [hnone, hnone']
    exact ⟨List.rel_append h.symbols (.cons hst .nil), h.duplicates⟩
  · rw [hfirst, hfirst']
    refine ⟨h.symbols, ?_⟩
    simp only [h.duplicates, hst.position, hsame.position]

theorem Placed.Moved.symbol? {p q : Placed} (h : p.Moved distance q) :
    Option.Rel (Symbol.Moved distance) p.symbol? q.symbol? := by
  obtain ⟨x, y, hx, hy, hxy⟩ := h.address
  have hlabel : q.label = p.label := congrArg Statement.label h.statement
  have hposition : q.position = p.position := congrArg Statement.position h.statement
  unfold Placed.symbol?
  rw [hx, hy, hlabel]
  by_cases habsent : p.label = absent
  · simp only [habsent, if_true]
    exact .none
  · simp only [habsent, if_false]
    exact .some ⟨rfl, hposition, hxy⟩

/-- Moved statements define moved symbols. -/
theorem Scope.moved_ofStatements {ps qs : List Placed}
    (h : List.Forall₂ (Placed.Moved distance) ps qs) :
    (Scope.ofStatements ps).Moved distance (Scope.ofStatements qs) := by
  have hsymbols : List.Forall₂ (Symbol.Moved distance) (ps.filterMap Placed.symbol?)
      (qs.filterMap Placed.symbol?) := List.rel_filterMap (fun _ _ hpq => hpq.symbol?) h
  exact List.rel_foldl (fun _ _ hscope _ _ hst => hscope.define hst)
    (show Scope.empty.Moved distance Scope.empty from ⟨.nil, rfl⟩) hsymbols

/-! ## Codes -/

section

variable {symbols symbols' : List Symbol}

/-- The code of the same statement with moved symbols. -/
structure Statement.CodeMoved (distance : Int) (symbols symbols' : List Symbol) (s : Statement)
    (code code' : Bytes) : Prop where
  /-- only an instruction with a defined operand has another code -/
  same : (∀ opcode, s.operation = .instruction opcode →
    s.operand = absent ∨ Symbol.lookup symbols s.operand = none) → code' = code
  /-- such an instruction differs in its address of four digits, which is moved -/
  reference : ∀ opcode x, s.operation = .instruction opcode → s.operand ≠ absent →
    Symbol.lookup symbols s.operand = some x →
    ∃ y, Symbol.lookup symbols' s.operand = some y ∧ Displaced distance x y ∧
      code = opcode ++ upperHex 4 x.toNat ∧ code' = opcode ++ upperHex 4 y.toNat ∧
      (upperHex 4 x.toNat).length = 4 ∧ (upperHex 4 y.toNat).length = 4

/-- Moved symbols change no length. -/
theorem Statement.CodeMoved.length_eq {s : Statement} {code code' : Bytes}
    (h : s.CodeMoved distance symbols symbols' code code') : code'.length = code.length := by
  by_cases hblank : ∀ opcode, s.operation = .instruction opcode →
      s.operand = absent ∨ Symbol.lookup symbols s.operand = none
  · rw [h.same hblank]
  · push Not at hblank
    obtain ⟨opcode, hoperation, hoperand, hdefined⟩ := hblank
    obtain ⟨x, hx⟩ := Option.ne_none_iff_exists'.mp hdefined
    obtain ⟨y, _, _, rfl, rfl, hfour, hfour'⟩ := h.reference opcode x hoperation hoperand hx
    rw [List.length_append, List.length_append, hfour, hfour']

/-- An address of at most four digits is written in four. -/
theorem length_address_of_lookup (hfits : ∀ symbol ∈ symbols, symbol.address.toNat ≤ 0xFFFF)
    {name : Bytes}
    {x : Address} (h : Symbol.lookup symbols name = some x) : (upperHex 4 x.toNat).length = 4 := by
  obtain ⟨symbol, hmem, rfl⟩ := Symbol.exists_of_lookup h
  exact length_upperHex (by decide) (Nat.lt_succ_of_le (hfits symbol hmem))

/-- Only instructions look at the symbols. -/
theorem Statement.code_eq_of_ne_instruction {s : Statement}
    (h : ∀ opcode, s.operation ≠ .instruction opcode) :
    s.code symbols' = s.code symbols := by
  unfold Statement.code
  split
  · rename_i opcode hoperation
    exact absurd hoperation (h opcode)
  all_goals rfl

/-- With moved symbols a statement has no code for the same reason, or a code that is moved. -/
theorem Statement.code_moved (h : List.Forall₂ (Symbol.Moved distance) symbols symbols')
    (hfits : ∀ symbol ∈ symbols, symbol.address.toNat ≤ 0xFFFF)
    (hfits' : ∀ symbol ∈ symbols', symbol.address.toNat ≤ 0xFFFF) (s : Statement) :
    (∃ cause, s.code symbols = .error cause ∧ s.code symbols' = .error cause) ∨
      ∃ code code', s.code symbols = .ok code ∧ s.code symbols' = .ok code' ∧
        s.CodeMoved distance symbols symbols' code code' := by
  by_cases hinstruction : ∃ opcode, s.operation = .instruction opcode
  · obtain ⟨opcode, hoperation⟩ := hinstruction
    have hcode : ∀ bound, s.code bound = .ok (opcode ++ upperHex 4
        (if s.operand = absent then 0 else (Symbol.lookup bound s.operand).getD 0 :
          Address).toNat) := by
      intro bound
      simp [Statement.code, hoperation]
    refine Or.inr ⟨_, _, hcode symbols, hcode symbols', ?_, ?_⟩
    · intro hblank
      rcases hblank opcode hoperation with habsent | hnone
      · simp [habsent]
      · rcases Symbol.lookup_moved h s.operand with ⟨_, hnone'⟩ | ⟨x, y, hx, _⟩
        · rw [hnone, hnone']
        · simp [hx] at hnone
    · intro opcode' x hoperation' hoperand hx
      obtain rfl : opcode = opcode' := Operation.instruction.inj (hoperation.symm.trans hoperation')
      rcases Symbol.lookup_moved h s.operand with ⟨hnone, _⟩ | ⟨x', y, hx', hy, hxy⟩
      · simp [hnone] at hx
      · obtain rfl : x' = x := Option.some.inj (hx'.symm.trans hx)
        rw [if_neg hoperand, if_neg hoperand, hx, hy]
        exact ⟨y, rfl, hxy, rfl, rfl, length_address_of_lookup hfits hx,
          length_address_of_lookup hfits' hy⟩
  · have hne : ∀ opcode, s.operation ≠ .instruction opcode := not_exists.mp hinstruction
    have hsame : s.code symbols' = s.code symbols := Statement.code_eq_of_ne_instruction hne
    rw [hsame]
    cases s.code symbols with
    | error cause => exact Or.inl ⟨cause, rfl, rfl⟩
    | ok code =>
      refine Or.inr ⟨code, code, rfl, rfl, fun _ => rfl, ?_⟩
      intro opcode _ hoperation
      exact absurd hoperation (hne opcode)

/-! ## Listings -/

/-- The same line, moved. -/
structure Line.Moved (distance : Int) (symbols symbols' : List Symbol) (l m : Line) : Prop where
  /-- it is the same statement at a moved address -/
  placed : l.toPlaced.Moved distance m.toPlaced
  /-- its code is moved -/
  code : l.CodeMoved distance symbols symbols' l.code m.code

namespace Listing

/-- With moved symbols the same statement has no code, or all lines are moved. -/
theorem ofStatements_moved (h : List.Forall₂ (Symbol.Moved distance) symbols symbols')
    (hfits : ∀ symbol ∈ symbols, symbol.address.toNat ≤ 0xFFFF)
    (hfits' : ∀ symbol ∈ symbols', symbol.address.toNat ≤ 0xFFFF) {ps qs : List Placed}
    (hmoved : List.Forall₂ (Placed.Moved distance) ps qs) :
    (∃ d, ofStatements symbols ps = .error d ∧ ofStatements symbols' qs = .error d) ∨
      ∃ ls ms, ofStatements symbols ps = .ok ls ∧ ofStatements symbols' qs = .ok ms ∧
        List.Forall₂ (Line.Moved distance symbols symbols') ls ms := by
  induction hmoved with
  | nil => exact Or.inr ⟨[], [], rfl, rfl, .nil⟩
  | @cons p q ps qs hpq _ ih =>
    rw [ofStatements_cons, ofStatements_cons, line, line, hpq.statement]
    rcases Statement.code_moved h hfits hfits' p.toStatement with
      ⟨cause, hcode, hcode'⟩ | ⟨code, code', hcode, hcode', hcodes⟩
    · rw [hcode, hcode']
      exact Or.inl ⟨_, rfl, rfl⟩
    · rw [hcode, hcode']
      have hline :
          Line.Moved distance symbols symbols' { p with code := code } { q with code := code' } :=
        ⟨hpq, hcodes⟩
      by_cases hend : p.operation = .finish
      · exact Or.inr ⟨_, _, if_pos hend, if_pos hend, .cons hline .nil⟩
      · rcases ih with ⟨d, hd, hd'⟩ | ⟨ls, ms, hls, hms, hlines⟩
        · refine Or.inl ⟨d, (if_neg hend).trans ?_, (if_neg hend).trans ?_⟩
          · rw [hd]
            rfl
          · rw [hd']
            rfl
        · refine Or.inr ⟨_, _, (if_neg hend).trans ?_, (if_neg hend).trans ?_, .cons hline hlines⟩
          · rw [hls]
            rfl
          · rw [hms]
            rfl

/-- With moved symbols the same operands are undefined. -/
theorem undefined_moved (h : List.Forall₂ (Symbol.Moved distance) symbols symbols')
    {ps qs : List Placed}
    (hmoved : List.Forall₂ (Placed.Moved distance) ps qs) :
    undefined symbols' qs = undefined symbols ps := by
  induction hmoved with
  | nil => rfl
  | @cons p q ps qs hpq _ ih =>
    have hdefined : (Symbol.lookup symbols' p.operand).isSome =
        (Symbol.lookup symbols p.operand).isSome := by
      rcases Symbol.lookup_moved h p.operand with ⟨hnone, hnone'⟩ | ⟨x, y, hx, hy, _⟩
      · rw [hnone, hnone']
      · rw [hx, hy]
        rfl
    have hundefined : p.undefined? symbols' = p.undefined? symbols := by
      unfold Statement.undefined?
      rw [hdefined]
    rw [undefined_cons, undefined_cons, hpq.statement, hundefined, ih]

end Listing

end

/-! ## Groups -/

/-- Two groupings have made the same decisions so far, and will make the same ones. -/
structure Object.Grouping.Alike (g g' : Grouping) : Prop where
  limit : g'.limit = g.limit
  size : g'.size = g.size
  count : g'.codes.size = g.codes.size
  closed : g'.closed.toList.map (fun t => t.codes.length) =
    g.closed.toList.map fun t => t.codes.length

namespace Object.Grouping.Alike

variable {g g' : Grouping} {x y : Address} {code code' : Bytes}

theorem isEmpty_eq (h : g.Alike g') : g'.codes.isEmpty = g.codes.isEmpty := by
  simp only [Array.isEmpty, h.count]

theorem close (h : g.Alike g') : g.close.Alike g'.close := by
  refine ⟨h.limit, rfl, rfl, ?_⟩
  simp only [Grouping.close, h.isEmpty_eq]
  split
  · exact h.closed
  · simpa [h.closed] using h.count

theorem append (h : g.Alike g') (hcode : code'.length = code.length) :
    (g.append x code).Alike (g'.append y code') := by
  refine ⟨h.limit, ?_, ?_, h.closed⟩
  · simp only [Grouping.append, codeSize, h.size, hcode]
  · simp only [Grouping.append, Array.size_push, h.count]

/-- Whether a code fits depends on its length only. -/
theorem add (h : g.Alike g') (hcode : code'.length = code.length) :
    (g.add x code).Alike (g'.add y code') := by
  have hempty : code'.isEmpty = code.isEmpty := by
    rw [Bool.eq_iff_iff, List.isEmpty_iff_length_eq_zero, List.isEmpty_iff_length_eq_zero, hcode]
  have hoverflows : g'.overflows code' = g.overflows code := by
    simp [Grouping.overflows, codeSize, h.limit, h.size, h.isEmpty_eq, hcode]
  unfold Grouping.add
  rw [hempty, hoverflows]
  split
  · exact h
  · split
    · exact h.close.append hcode
    · exact h.append hcode

theorem interrupt (h : g.Alike g') : g.interrupt.Alike g'.interrupt := by
  unfold Grouping.interrupt
  rw [h.limit]
  split
  · exact h.close
  · exact h

end Object.Grouping.Alike

/-- Lists of lists of the same lengths match if their elements do. -/
theorem forall₂_of_flatten {α β : Type} {r : α → β → Prop} {xss : List (List α)}
    {yss : List (List β)}
    (hlength : yss.map List.length = xss.map List.length)
    (h : List.Forall₂ r xss.flatten yss.flatten) :
    List.Forall₂ (List.Forall₂ r) xss yss := by
  induction xss generalizing yss with
  | nil =>
    obtain rfl : yss = [] := List.map_eq_nil_iff.mp hlength
    exact .nil
  | cons xs xss ih =>
    cases yss with
    | nil => simp at hlength
    | cons ys yss =>
      obtain ⟨hfirst, hrest⟩ := List.cons.inj hlength
      rw [List.flatten_cons, List.flatten_cons] at h
      have htake := List.forall₂_take xs.length h
      have hdrop := List.forall₂_drop xs.length h
      rw [List.take_left, ← hfirst, List.take_left] at htake
      rw [List.drop_left, ← hfirst, List.drop_left] at hdrop
      exact .cons htake (ih hrest hdrop)

namespace Listing

variable {r : Line → Line → Prop}

theorem group_alike {g g' : Grouping} (h : g.Alike g') {l m : Line}
    (hcode : m.code.length = l.code.length)
    (hoperation : m.operation = l.operation) : (group g l).Alike (group g' m) := by
  have hempty : m.code.isEmpty = l.code.isEmpty := by
    rw [Bool.eq_iff_iff, List.isEmpty_iff_length_eq_zero, List.isEmpty_iff_length_eq_zero, hcode]
  unfold group
  rw [hempty, hoperation]
  split
  · exact h.add hcode
  · split
    · exact h.interrupt
    · exact h

/-- Lines with codes of the same lengths are grouped in the same way. -/
theorem exists_groups_alike
    (hr : ∀ l m, r l m → m.code.length = l.code.length ∧ m.operation = l.operation) (limit : Int)
    {ls ms : List Line} (h : List.Forall₂ r ls ms) :
    ∃ groups groups' : List (List Line),
      records limit ls = groups.map record ∧ groups.flatten = coded ls ∧
      (∀ group ∈ groups, group ≠ []) ∧
      records limit ms = groups'.map record ∧ groups'.flatten = coded ms ∧
      List.Forall₂ (List.Forall₂ r) groups groups' := by
  obtain ⟨groups, hrecords, hflatten, hnonempty, _⟩ := exists_groups limit ls
  obtain ⟨groups', hrecords', hflatten', _⟩ := exists_groups limit ms
  refine ⟨groups, groups', hrecords, hflatten, hnonempty, hrecords', hflatten', ?_⟩
  refine forall₂_of_flatten ?_ ?_
  · have halike : (ls.foldl group (.new limit)).Alike (ms.foldl group (.new limit)) :=
      List.rel_foldl (P := Grouping.Alike) (fun _ _ hg l m hlm =>
        group_alike hg (hr l m hlm).1 (hr l m hlm).2)
        (show (Grouping.new limit).Alike (.new limit) from ⟨rfl, rfl, rfl, rfl⟩) h
    have hlengths := halike.close.closed
    change (records limit ms).map _ = (records limit ls).map _ at hlengths
    rw [hrecords, hrecords', List.map_map, List.map_map] at hlengths
    simpa only [Function.comp_def, length_codes_record] using hlengths
  · rw [hflatten, hflatten']
    refine List.rel_filter (fun l m hlm => ?_) h
    have hcode := (hr l m hlm).1
    simp only [decide_not, Bool.not_eq_true', decide_eq_false_iff_not,
      ← List.length_eq_zero_iff, hcode]

end Listing

theorem Line.Moved.grouped {symbols symbols' : List Symbol} {l m : Line}
    (h : l.Moved distance symbols symbols' m) :
    m.code.length = l.code.length ∧ m.operation = l.operation :=
  ⟨h.code.length_eq, congrArg Statement.operation h.placed.statement⟩

/-- A group of moved lines makes a record at a moved address. -/
theorem Listing.displaced_record {symbols symbols' : List Symbol} {ls ms : List Line}
    (hne : ls ≠ []) (h : List.Forall₂ (Line.Moved distance symbols symbols') ls ms) :
    Displaced distance (record ls).start (record ms).start := by
  cases h with
  | nil => exact absurd rfl hne
  | cons hlm _ =>
    obtain ⟨x, y, hx, hy, hxy⟩ := hlm.placed.address
    simpa [record, Text.ofRun, Line.item, hx, hy] using hxy

/-! ## Results -/

/-- A result for a source that begins with a START statement, and one for the same source with
another operand there. -/
structure Assembly.Relocated (start : Statement) (operand : Bytes) (a b : Assembly) : Prop where
  name : b.name = a.name
  length : b.length = a.length
  diagnostics : b.diagnostics = a.diagnostics
  /-- the program starts elsewhere -/
  origin : Displaced (displacement start operand) a.start b.start
  /-- the START statement has no address, and the statements behind it are moved -/
  statements : ∃ ps qs, a.statements = { start with address := none } :: ps ∧
    b.statements = { start with operand := operand, address := none } :: qs ∧
    List.Forall₂ (Placed.Moved (displacement start operand)) ps qs
  /-- the symbols are moved -/
  symbols : List.Forall₂ (Symbol.Moved (displacement start operand)) a.symbols b.symbols
  /-- the START statement has no code, and the lines behind it are moved -/
  listing : ∃ ls ms, a.listing = { start with address := none, code := [] } :: ls ∧
    b.listing = { start with operand := operand, address := none, code := [] } :: ms ∧
    List.Forall₂ (Line.Moved (displacement start operand) a.symbols b.symbols) ls ms
  /-- the Text records are moved -/
  text : List.Forall₂ (fun t u => Displaced (displacement start operand) t.start u.start)
    a.program.text b.program.text
  /-- they hold the same lines -/
  groups : ∃ groups groups' : List (List Line),
    a.program.text = groups.map Listing.record ∧ groups.flatten = Listing.coded a.listing ∧
    b.program.text = groups'.map Listing.record ∧ groups'.flatten = Listing.coded b.listing ∧
    List.Forall₂ (List.Forall₂ (Line.Moved (displacement start operand) a.symbols b.symbols))
    groups groups'

/-- The listing of a program that begins with a START statement. -/
theorem Listing.ofStatements_start (symbols : List Symbol) {start : Statement}
    (hstart : start.operation = .start) (ps : List Placed) :
    ofStatements symbols ({ start with address := none } :: ps) =
      (ofStatements symbols ps).map ({ start with address := none, code := [] } :: ·) := by
  have hcode : start.code symbols = .ok [] :=
    Statement.code_of_isStart (by simp [Statement.isStart, hstart])
  rw [ofStatements_cons, line, hcode]
  exact if_neg (by simp [hstart])

theorem Listing.undefined_start (symbols : List Symbol) {start : Statement}
    (hstart : start.operation = .start)
    (ps : List Placed) :
    undefined symbols ({ start with address := none } :: ps) = undefined symbols ps := by
  rw [undefined_cons]
  simp [Statement.undefined?, hstart]

/-- A line in front without code that reserves nothing has no part in the Text records. -/
theorem Listing.records_cons_of_blank (limit : Int) {l : Line} (hcode : l.code = [])
    (hreserves : l.operation.reserves = false) (lines : List Line) :
    records limit (l :: lines) = records limit lines ∧ coded (l :: lines) = coded lines := by
  have hblank : ∀ m ∈ [l], m.code = [] ∧ m.operation.reserves = false := by simp [hcode, hreserves]
  exact ⟨records_append_of_blank limit lines hblank, coded_append_of_blank lines hblank⟩

/-- Results that are completed from moved lines are moved. -/
theorem Intermediate.relocated_complete {first first' : Intermediate} {start : Statement}
    {operand : Bytes}
    {ps qs : List Placed} {ls ms : List Line} (limit : Int) (hstart : start.operation = .start)
    (hps : first.layout.statements = { start with address := none } :: ps)
    (hqs : first'.layout.statements = { start with operand := operand, address := none } :: qs)
    (hmoved : List.Forall₂ (Placed.Moved (displacement start operand)) ps qs)
    (horigin : Displaced (displacement start operand) first.layout.start first'.layout.start)
    (hlength : first'.layout.length = first.layout.length)
    (hscope : first.scope.Moved (displacement start operand) first'.scope)
    (hlines : List.Forall₂
      (Line.Moved (displacement start operand) first.scope.symbols first'.scope.symbols)
      ls ms) (undefined : List Diagnostic) :
    (first.complete limit ({ start with address := none, code := [] } :: ls) undefined).Relocated
      start operand
      (first'.complete limit ({ start with operand := operand, address := none, code := [] } :: ms)
        undefined) := by
  have hname : programName first'.layout.statements = programName first.layout.statements := by
    simp [programName, hps, hqs, hstart]
  have hreserves : start.operation.reserves = false := by rw [hstart]; rfl
  obtain ⟨hrecords, hcoded⟩ := Listing.records_cons_of_blank limit
    (l := { start with address := none, code := [] }) rfl hreserves ls
  obtain ⟨hrecords', hcoded'⟩ := Listing.records_cons_of_blank limit
    (l := { start with operand := operand, address := none, code := [] }) rfl hreserves ms
  obtain ⟨groups, groups', htext, hflatten, hnonempty, htext', hflatten', hgroups⟩ :=
    Listing.exists_groups_alike (fun _ _ hlm => hlm.grouped) limit hlines
  refine { name := hname, length := hlength, origin := horigin, symbols := hscope.symbols,
           diagnostics := ?_, statements := ⟨ps, qs, hps, hqs, hmoved⟩,
           listing := ⟨ls, ms, rfl, rfl, hlines⟩, text := ?_, groups := ?_ }
  · show first'.scope.duplicates.toList ++ undefined = first.scope.duplicates.toList ++ undefined
    rw [hscope.duplicates]
  · show List.Forall₂ _ (Listing.records limit _) (Listing.records limit _)
    rw [hrecords, hrecords', htext, htext', List.forall₂_map_left_iff, List.forall₂_map_right_iff]
    have hboth := (List.forall₂_and_left groups groups').mpr ⟨hnonempty, hgroups⟩
    exact hboth.imp fun _ _ h => Listing.displaced_record h.1 h.2
  · exact ⟨groups, groups', hrecords.trans htext, hflatten.trans hcoded.symm,
      hrecords'.trans htext', hflatten'.trans hcoded'.symm, hgroups⟩

/-- Two sources that differ only in the operand of the START statement in front: if both pass the
first pass and all symbols fit four digits, the second pass fails in the same way, or yields results
that are moved. -/
theorem secondPass_relocated {settings : Settings} {table : Opcode.Table} {name operand : Bytes}
    {source source' : Input} {start : Statement} {rest : List Statement}
    {first first' : Intermediate}
    (hsource : Statement.ofLines table name source.read.lines = start :: rest)
    (hsource' : Statement.ofLines table name source'.read.lines =
      { start with operand := operand } :: rest)
    (hstart : start.operation = .start)
    (hfirst : firstPass settings table name source = .ok first)
    (hfirst' : firstPass settings table name source' = .ok first')
    (hfits : ∀ symbol ∈ first.scope.symbols, symbol.address.toNat ≤ 0xFFFF)
    (hfits' : ∀ symbol ∈ first'.scope.symbols, symbol.address.toNat ≤ 0xFFFF) :
    (∃ failure, secondPass settings first = .error failure ∧
      secondPass settings first' = .error failure) ∨
      ∃ a b, secondPass settings first = .ok a ∧ secondPass settings first' = .ok b ∧
        a.Relocated start operand b := by
  obtain ⟨hlayout, _, hscope, _⟩ := eq_of_firstPass_eq_ok hfirst
  obtain ⟨hlayout', _, hscope', _⟩ := eq_of_firstPass_eq_ok hfirst'
  rw [hsource] at hlayout
  rw [hsource'] at hlayout'
  obtain ⟨ps, qs, hps, hqs, hmoved, horigin, hlength⟩ := Layout.moved hstart hlayout hlayout'
  have hscopes : first.scope.Moved (displacement start operand) first'.scope := by
    rw [hscope, hscope', hps, hqs]
    -- The START statement has no address, so it defines nothing.
    show (Scope.ofStatements ps).Moved _ (Scope.ofStatements qs)
    exact Scope.moved_ofStatements hmoved
  have hstart' : ({ start with operand := operand } : Statement).operation = .start := hstart
  have hundefined : Listing.undefined first'.scope.symbols first'.layout.statements =
      Listing.undefined first.scope.symbols first.layout.statements := by
    rw [hps, hqs, Listing.undefined_start _ hstart, Listing.undefined_start _ hstart']
    exact Listing.undefined_moved hscopes.symbols hmoved
  have hlisting := Listing.ofStatements_start first.scope.symbols hstart ps
  have hlisting' := Listing.ofStatements_start first'.scope.symbols hstart' qs
  rw [← hps] at hlisting
  rw [← hqs] at hlisting'
  rcases Listing.ofStatements_moved hscopes.symbols hfits hfits' hmoved with
    ⟨d, hd, hd'⟩ | ⟨ls, ms, hls, hms, hlines⟩
  · rw [hd] at hlisting
    rw [hd'] at hlisting'
    exact Or.inl ⟨.fatal d, by simp only [secondPass, hlisting, Except.map],
      by simp only [secondPass, hlisting', Except.map]⟩
  · rw [hls] at hlisting
    rw [hms] at hlisting'
    have hrelocated :=
      Intermediate.relocated_complete settings.textLimit.val hstart hps hqs hmoved horigin
      hlength hscopes hlines (Listing.undefined first.scope.symbols first.layout.statements)
    rw [secondPass_of_listing hlisting, secondPass_of_listing hlisting', hundefined]
    simp only [hrelocated.diagnostics]
    cases settings.accept _ with
    | error failure => exact Or.inl ⟨failure, rfl, rfl⟩
    | ok _ => exact Or.inr ⟨_, _, rfl, rfl, hrelocated⟩

/-- A source that starts at a given address, with all kinds of code and reserved storage between
them. -/
def relocatableSource (address : Bytes) : Input := .ofBytes
  (utf8 "P START " ++ address ++ utf8 "\nA LDA C\nB BYTE C'x'\nC RESW 2\nA LDA Z\nD WORD -1\nEND")

theorem secondPass_relocated_relocatableSource :
    ∃ first first' a b,
      firstPass ⟨4, false⟩ loadTable [] (relocatableSource (utf8 "10")) = .ok first ∧
      firstPass ⟨4, false⟩ loadTable [] (relocatableSource (utf8 "FF0")) = .ok first' ∧
      secondPass ⟨4, false⟩ first = .ok a ∧ secondPass ⟨4, false⟩ first' = .ok b ∧
      a.Relocated ⟨⟨[], 1⟩, utf8 "P", utf8 "START", utf8 "10", .start⟩ (utf8 "FF0") b ∧
      a.program.records = [utf8 "H^P     ^000010^000010", utf8 "T^000010^04^0a0014^78",
        utf8 "T^00001A^03^0a0000", utf8 "T^00001D^03^FFFFFF", utf8 "E^000010"] ∧
      b.program.records = [utf8 "H^P     ^000FF0^000010", utf8 "T^000FF0^04^0a0FF4^78",
        utf8 "T^000FFA^03^0a0000", utf8 "T^000FFD^03^FFFFFF", utf8 "E^000FF0"] := by
  have hfirst := eq_ok_of_isOk (default : Intermediate)
    (x := firstPass ⟨4, false⟩ loadTable [] (relocatableSource (utf8 "10"))) (by decide +kernel)
  have hfirst' := eq_ok_of_isOk (default : Intermediate)
    (x := firstPass ⟨4, false⟩ loadTable [] (relocatableSource (utf8 "FF0"))) (by decide +kernel)
  have ha := eq_ok_of_isOk (default : Assembly) (x := secondPass ⟨4, false⟩
    ((firstPass ⟨4, false⟩ loadTable [] (relocatableSource (utf8 "10"))).toOption.getD default))
    (by decide +kernel)
  have hb := eq_ok_of_isOk (default : Assembly) (x := secondPass ⟨4, false⟩
    ((firstPass ⟨4, false⟩ loadTable [] (relocatableSource (utf8 "FF0"))).toOption.getD default))
    (by decide +kernel)
  have hsource : Statement.ofLines loadTable [] (relocatableSource (utf8 "10")).read.lines =
      ⟨⟨[], 1⟩, utf8 "P", utf8 "START", utf8 "10", .start⟩ ::
        (Statement.ofLines loadTable [] (relocatableSource (utf8 "10")).read.lines).tail := by
    decide +kernel
  have hsource' : Statement.ofLines loadTable [] (relocatableSource (utf8 "FF0")).read.lines =
      ⟨⟨[], 1⟩, utf8 "P", utf8 "START", utf8 "FF0", .start⟩ ::
        (Statement.ofLines loadTable [] (relocatableSource (utf8 "10")).read.lines).tail := by
    decide +kernel
  rcases secondPass_relocated hsource hsource' rfl hfirst hfirst' (by decide +kernel)
    (by decide +kernel) with ⟨failure, hfails, _⟩ | ⟨a, b, ha', hb', hrelocated⟩
  · cases ha.symm.trans hfails
  · refine ⟨_, _, a, b, hfirst, hfirst', ha', hb', hrelocated, ?_, ?_⟩
    · rw [← Except.ok.inj (ha.symm.trans ha')]
      decide +kernel
    · rw [← Except.ok.inj (hb.symm.trans hb')]
      decide +kernel

end TwoPass
