import TwoPass.Proofs.Assembly.Code
import TwoPass.Proofs.Assembly.Groups
import TwoPass.Proofs.Object.Cells

set_option autoImplicit false

/-!
# Object code where its statement is

With a limit on Text records, storage that is only reserved ends the open record.  Where in addition
every code is as long as the location counter takes it to be, a record holds no gap, so each code in
it comes to lie at the address of its own statement.  Loading the program then gives memory in which
every statement with code has exactly the bytes of its code, and all other bytes are zero.
-/

namespace TwoPass

open Object (Item Text Cell WholeBytes Denotes bytesOf codeSize)

/-! ## Lines side by side -/

/-- Lines fill memory from one address up to another: each code stands where the one before it ends,
and only reserved storage is left out. -/
inductive Tiles : Nat → List Line → Nat → Prop where
  | nil (low : Nat) : Tiles low [] low
  /-- a line with code -/
  | code {low high : Nat} {l : Line} {rest : List Line} {address : Address} :
      l.code ≠ [] → l.address = some address → address.toNat = low → WholeBytes l.code →
      Tiles (low + codeSize l.code) rest high → Tiles low (l :: rest) high
  /-- a line without code, which takes up space only if it reserves storage -/
  | gap {low high size : Nat} {l : Line} {rest : List Line} :
      l.code = [] → (l.operation.reserves = true ∨ size = 0) →
      Tiles (low + size) rest high → Tiles low (l :: rest) high

/-- A settled counter puts lines side by side. -/
theorem Counter.Places.tiles {c last : Counter} {lines : List Line}
    (h : Counter.Places c (lines.map Line.toPlaced) last)
    (hsettled : c.Settled (lines.map Line.toPlaced))
    (hfills : ∀ l ∈ lines, l.Fills l.code) : Tiles c.location.toNat lines last.location.toNat := by
  induction lines generalizing c with
  | nil =>
    cases h with
    | nil => exact .nil _
  | cons l lines ih =>
    rw [List.map_cons] at h hsettled
    cases h with
    | @cons _ next _ _ _ hstep haddress hrest =>
      obtain ⟨hplace, ⟨size, hsize, hlocation⟩, _, hnext⟩ := hsettled.step_cases hstep
      have hrest := ih hrest hnext fun l' hl' => hfills l' (List.mem_cons_of_mem l hl')
      have hl := hfills l List.mem_cons_self
      rw [hlocation] at hrest
      cases hreserves : l.operation.reserves with
      | true => exact .gap (hl.reserved hreserves) (Or.inl hreserves) hrest
      | false =>
        have hcodeSize : size = codeSize l.code :=
          Except.ok.inj (hsize.symm.trans (hl.size hreserves))
        by_cases hcode : l.code = []
        · exact .gap hcode (Or.inr (by rw [hcodeSize, hcode]; rfl)) hrest
        · rw [hcodeSize] at hrest
          exact .code hcode (haddress.trans hplace) rfl hl.whole hrest

theorem Tiles.low_le {low high : Nat} {lines : List Line} (h : Tiles low lines high) :
    low ≤ high := by
  induction h with
  | nil low => exact Nat.le_refl low
  | code _ _ _ _ _ ih => omega
  | gap _ _ _ ih => omega

/-- Every code lies inside what its lines fill. -/
theorem Tiles.exists_address {low high : Nat} {lines : List Line} (h : Tiles low lines high) :
    ∀ l ∈ lines, l.code ≠ [] → ∃ address, l.address = some address ∧ WholeBytes l.code ∧
      low ≤ address.toNat ∧ address.toNat + codeSize l.code ≤ high := by
  induction h with
  | nil low => simp
  | code hcode haddress hlow hwhole hrest ih =>
    intro l hl hne
    rcases List.mem_cons.mp hl with rfl | hl
    · have hhigh := hrest.low_le
      exact ⟨_, haddress, hwhole, by omega, by omega⟩
    · obtain ⟨address, hsome, hbytes, hbound, hend⟩ := ih l hl hne
      exact ⟨address, hsome, hbytes, by omega, hend⟩
  | gap hcode _ _ ih =>
    intro l hl hne
    rcases List.mem_cons.mp hl with rfl | hl
    · exact absurd hcode hne
    · obtain ⟨address, hsome, hbytes, hbound, hend⟩ := ih l hl hne
      exact ⟨address, hsome, hbytes, by omega, hend⟩

/-- The items of lines, with what their lines say about them. -/
theorem Tiles.bounds_of_mem_items {low high : Nat} {lines : List Line} (h : Tiles low lines high)
    {item : Item} (hitem : item ∈ lines.filterMap Line.item?) :
    WholeBytes item.code ∧ low ≤ item.address.toNat ∧
      item.address.toNat + codeSize item.code ≤ high := by
  obtain ⟨l, hl, hsome⟩ := List.mem_filterMap.mp hitem
  obtain ⟨hcode, rfl⟩ := Line.item?_eq_some_iff.mp hsome
  obtain ⟨address, haddress, hwhole, hlow, hhigh⟩ := h.exists_address l hl hcode
  simp only [haddress, Option.getD_some]
  exact ⟨hwhole, hlow, hhigh⟩

/-- A cell of an item is one of its bytes. -/
theorem Object.Item.bounds_of_mem_cells {item : Item} {c : Cell} (h : c ∈ item.cells) :
    item.address.toNat ≤ c.address ∧ c.address < item.address.toNat + codeSize item.code := by
  have hbounds := Object.bounds_of_mem_cells h
  rw [Object.length_bytesOf] at hbounds
  exact hbounds

/-- The cells of lines. -/
def lineCells (lines : List Line) : List Cell := (lines.filterMap Line.item?).flatMap Item.cells

/-- No two codes fill the same cell, and their cells come in order. -/
theorem Tiles.pairwise_cells {low high : Nat} {lines : List Line} (h : Tiles low lines high) :
    (lineCells lines).Pairwise fun c d => c.address < d.address := by
  induction h with
  | nil low => exact List.Pairwise.nil
  | @code low high l rest address hcode haddress hlow _ hrest ih =>
    have hitem : l.item? = some ⟨address, l.code⟩ :=
      Line.item?_eq_some_iff.mpr ⟨hcode, by rw [haddress]; rfl⟩
    rw [lineCells, List.filterMap_cons_some hitem, List.flatMap_cons, List.pairwise_append]
    refine ⟨Object.pairwise_cells _ _, ih, ?_⟩
    intro c hc d hd
    obtain ⟨item, hmem, hd⟩ := List.mem_flatMap.mp hd
    have hbefore := Item.bounds_of_mem_cells hc
    have hbehind := Item.bounds_of_mem_cells hd
    have hlater := (hrest.bounds_of_mem_items hmem).2.1
    simp only at hbefore
    omega
  | gap hcode _ _ ih =>
    rw [lineCells, List.filterMap_cons_none (by simp [Line.item?, hcode])]
    exact ih

/-! ## Runs without gaps -/

theorem Tiles.split {low high : Nat} {front back : List Line} (h : Tiles low (front ++ back) high) :
    ∃ middle, Tiles low front middle ∧ Tiles middle back high := by
  induction front generalizing low with
  | nil => exact ⟨low, .nil low, h⟩
  | cons l front ih =>
    rw [List.cons_append] at h
    cases h with
    | code hcode haddress hlow hwhole hrest =>
      obtain ⟨middle, hfront, hback⟩ := ih hrest
      exact ⟨middle, .code hcode haddress hlow hwhole hfront, hback⟩
    | gap hcode hsize hrest =>
      obtain ⟨middle, hfront, hback⟩ := ih hrest
      exact ⟨middle, .gap hcode hsize hfront, hback⟩

/-- The codes of lines side by side follow each other without a gap, if no line reserves storage. -/
theorem Tiles.contiguous {low high : Nat} {lines : List Line} (h : Tiles low lines high)
    {limit : Int} (hlimit : 0 < limit) (hunbroken : Listing.Unbroken limit lines) :
    Object.Contiguous low ((Listing.coded lines).map Line.item) high := by
  induction h with
  | nil low => rfl
  | @code low high l rest address hcode haddress hlow _ _ ih =>
    have hcoded : Listing.coded (l :: rest) = l :: Listing.coded rest := by
      simp [Listing.coded, hcode]
    rw [hcoded, List.map_cons]
    refine ⟨?_, ih fun hpositive l' hl' => hunbroken hpositive l' (List.mem_cons_of_mem l hl')⟩
    rw [Line.item, haddress]
    exact hlow
  | @gap low high size l rest hcode hsize _ ih =>
    have hcoded : Listing.coded (l :: rest) = Listing.coded rest := by simp [Listing.coded, hcode]
    have hreserves := hunbroken hlimit l List.mem_cons_self hcode
    have hzero : size = 0 := hsize.resolve_left (by simp [hreserves])
    subst hzero
    rw [hcoded]
    exact ih fun hpositive l' hl' => hunbroken hpositive l' (List.mem_cons_of_mem l hl')

/-- The items of lines are those of the lines with code. -/
theorem Listing.filterMap_item? (lines : List Line) :
    lines.filterMap Line.item? = (coded lines).map Line.item := by
  induction lines with
  | nil => rfl
  | cons l lines ih =>
    by_cases hcode : l.code = []
    · simpa [coded, Line.item?, hcode] using ih
    · simpa [coded, Line.item?, Line.item, hcode] using ih

/-! ## Records inside the program -/

/-- A run of whole codes without gaps is a Text record inside the program that it lies in. -/
theorem Object.Contiguous.inside {header : Object.Header} {low high : Nat} {run : List Item}
    (h : Object.Contiguous low run high) (hne : run ≠ [])
    (hwhole : ∀ item ∈ run, WholeBytes item.code) (hlow : header.start.toNat ≤ low)
    (hhigh : high ≤ header.start.toNat + header.length.toNat) : (Text.ofRun run).Inside header := by
  have hcodes : ∀ code ∈ run.map Item.code, WholeBytes code := by
    intro code hcode
    obtain ⟨item, hitem, rfl⟩ := List.mem_map.mp hcode
    exact hwhole item hitem
  have hstart := h.start_ofRun hne
  have hsize : codeSize (run.map Item.code).flatten = Object.runSize run := by
    rw [Object.codeSize_flatten hcodes, List.map_map]
    rfl
  refine ⟨Object.wholeBytes_flatten hcodes, by omega, ?_⟩
  have hend := h.high_eq
  show (Text.ofRun run).start.toNat + codeSize (run.map Item.code).flatten ≤ _
  omega

/-- The Text records of lines that lie side by side inside the program are inside it, and fill the
cells of the lines. -/
theorem Tiles.records (header : Object.Header) {high : Nat} {lines : List Line}
    (h : Tiles header.start.toNat lines high)
    (hhigh : high ≤ header.start.toNat + header.length.toNat) {limit : Int} (hlimit : 0 < limit) :
    (∀ t ∈ Listing.records limit lines, t.Inside header) ∧
      (Listing.records limit lines).flatMap Text.cells = lineCells lines := by
  obtain ⟨groups, hrecords, hflatten, hnonempty, hstretches⟩ := Listing.exists_groups limit lines
  -- Each group is a stretch of the lines, so its codes leave no gap.
  have hgapless : ∀ group ∈ groups, ∃ first last, header.start.toNat ≤ first ∧ last ≤ high ∧
      Object.Contiguous first (group.map Line.item) last := by
    intro group hgroup
    obtain ⟨before, stretch, after, hlines, rfl, hunbroken⟩ := hstretches group hgroup
    rw [hlines, List.append_assoc] at h
    obtain ⟨first, hfront, hrest⟩ := h.split
    obtain ⟨last, hstretch, hback⟩ := hrest.split
    exact ⟨first, last, hfront.low_le, hback.low_le, hstretch.contiguous hlimit hunbroken⟩
  have hwhole : ∀ group ∈ groups, ∀ item ∈ group.map Line.item, WholeBytes item.code := by
    intro group hgroup item hitem
    have hlisted : item ∈ lines.filterMap Line.item? := by
      rw [Listing.filterMap_item?, ← hflatten, List.map_flatten]
      exact List.mem_flatten.mpr ⟨_, List.mem_map.mpr ⟨group, hgroup, rfl⟩, hitem⟩
    exact (h.bounds_of_mem_items hlisted).1
  have hne : ∀ group ∈ groups, group.map Line.item ≠ [] := by
    intro group hgroup hempty
    exact hnonempty group hgroup (List.map_eq_nil_iff.mp hempty)
  rw [hrecords]
  constructor
  · intro t ht
    obtain ⟨group, hgroup, rfl⟩ := List.mem_map.mp ht
    obtain ⟨first, last, hfirst, hlast, hrun⟩ := hgapless group hgroup
    exact hrun.inside (hne group hgroup) (hwhole group hgroup) hfirst (Nat.le_trans hlast hhigh)
  · rw [lineCells, Listing.filterMap_item?, ← hflatten, List.map_flatten, ← List.flatMap_id,
      List.flatMap_assoc, List.flatMap_map, List.flatMap_map]
    refine List.flatMap_congr fun group hgroup => ?_
    obtain ⟨_, _, _, _, hrun⟩ := hgapless group hgroup
    exact hrun.cells_ofRun (hne group hgroup) (hwhole group hgroup)

/-! ## Whole programs -/

/-- Listed lines lie side by side, before what is not listed. -/
theorem Counter.Places.exists_tiles {c last : Counter} {lines : List Line} {rest : List Placed}
    (h : Counter.Places c (lines.map Line.toPlaced ++ rest) last)
    (hsettled : c.Settled (lines.map Line.toPlaced ++ rest))
    (hfills : ∀ l ∈ lines, l.Fills l.code) :
    ∃ high, Tiles c.location.toNat lines high ∧ high ≤ last.location.toNat := by
  obtain ⟨middle, hlines, hrest⟩ := h.split
  obtain ⟨hfront, hback⟩ := hlines.settled hsettled
  exact ⟨_, hlines.tiles hfront hfills, hrest.location_le hback⟩

/-- Lines without code in front fill nothing. -/
theorem Tiles.append_blank {low high : Nat} {lead lines : List Line} (h : Tiles low lines high)
    (hblank : ∀ l ∈ lead, l.code = []) : Tiles low (lead ++ lines) high := by
  induction lead with
  | nil => exact h
  | cons l lead ih =>
    have hrest := ih fun l' hl' => hblank l' (List.mem_cons_of_mem l hl')
    exact .gap (hblank l List.mem_cons_self) (Or.inr rfl) hrest

/-- Where nothing precedes the first START statement, the listed lines lie side by side from the
start of the program on, inside it. -/
theorem Assembly.Made.tiles {settings : Settings} {source : List Statement} {a : Assembly}
    (h : a.Made settings source)
    (hfirst : hasStart a.statements = true → ∃ p ∈ a.statements.head?, p.isStart = true)
    (hfills : ∀ l ∈ a.listing, l.Fills l.code) :
    ∃ high, Tiles a.start.toNat a.listing high ∧ high ≤ a.start.toNat + a.length.toNat := by
  obtain ⟨lead, lines, rest, c, last, hlisting, hblank, hplaces, hsettled, hstart, hend⟩ :=
    h.exists_settled hfirst
  rw [hlisting] at hfills ⊢
  obtain ⟨high, htiles, hhigh⟩ := hplaces.exists_tiles hsettled
    fun l hl => hfills l (List.mem_append_right lead hl)
  rw [← hend, ← hstart]
  exact ⟨high, htiles.append_blank fun l hl => (hblank l hl).1, hhigh⟩

/-! ## The image -/

/-- A cell of lines is a byte of one of them. -/
theorem Tiles.exists_line {low high : Nat} {lines : List Line} (h : Tiles low lines high) {c : Cell}
    (hc : c ∈ lineCells lines) :
    ∃ l ∈ lines, l.code ≠ [] ∧ ∃ address, l.address = some address ∧ WholeBytes l.code ∧
      low ≤ address.toNat ∧ address.toNat ≤ c.address ∧
      c.address < address.toNat + codeSize l.code := by
  obtain ⟨item, hitem, hc⟩ := List.mem_flatMap.mp hc
  obtain ⟨l, hl, hsome⟩ := List.mem_filterMap.mp hitem
  obtain ⟨hcode, rfl⟩ := Line.item?_eq_some_iff.mp hsome
  obtain ⟨address, haddress, hwhole, hlow, _⟩ := h.exists_address l hl hcode
  have hbounds := Item.bounds_of_mem_cells hc
  simp only [haddress, Option.getD_some] at hbounds
  exact ⟨l, hl, hcode, address, haddress, hwhole, hlow, hbounds.1, hbounds.2⟩

/-- A line with code finds its bytes in memory that holds the cells of the lines. -/
theorem Tiles.getElem?_store {low high : Nat} {lines : List Line} (h : Tiles low lines high)
    {memory : Object.Memory} (hhigh : high ≤ low + memory.size) {l : Line} (hl : l ∈ lines)
    (hcode : l.code ≠ []) {address : Address} (haddress : l.address = some address) {k : Nat}
    (hk : k < codeSize l.code) :
    (Object.store low memory (lineCells lines))[address.toNat - low + k]? =
      (bytesOf l.code)[k]? := by
  obtain ⟨other, hother, _, hlow, hend⟩ := h.exists_address l hl hcode
  obtain rfl : other = address := Option.some.inj (hother.symm.trans haddress)
  obtain ⟨b, hb⟩ : ∃ b, (bytesOf l.code)[k]? = some b :=
    ⟨_, List.getElem?_eq_getElem (by rw [Object.length_bytesOf]; exact hk)⟩
  have hitem : l.item? = some ⟨other, l.code⟩ :=
    Line.item?_eq_some_iff.mpr ⟨hcode, by rw [haddress]; rfl⟩
  have hmem : (⟨other.toNat + k, b⟩ : Cell) ∈ lineCells lines :=
    List.mem_flatMap.mpr ⟨_, List.mem_filterMap.mpr ⟨l, hl, hitem⟩, Object.mem_cells _ hb⟩
  have hbase : ∀ c ∈ lineCells lines, low ≤ c.address := by
    intro c hc
    obtain ⟨_, _, _, start, _, _, hstart, hle, _⟩ := h.exists_line hc
    exact Nat.le_trans hstart hle
  have hoffset : other.toNat - low + k = other.toNat + k - low := by omega
  rw [hb, hoffset]
  exact Object.getElem?_store_of_mem memory h.pairwise_cells hbase hmem (by simp only; omega)

/-- Memory holds the bytes of every code at the address of its statement, and zeros elsewhere. -/
structure Assembly.LoadsTo (a : Assembly) (memory : Object.Memory) : Prop where
  /-- memory is as long as the program -/
  size : memory.size = a.length.toNat
  /-- every code is where its statement is -/
  placed : ∀ l ∈ a.listing, l.code ≠ [] → ∃ address bytes, l.address = some address ∧
    a.start ≤ address ∧ Denotes l.code bytes ∧
    ∀ k < bytes.length, memory[address.toNat - a.start.toNat + k]? = bytes[k]?
  /-- a byte that belongs to no code is zero -/
  blank : ∀ i < memory.size,
    (∀ l ∈ a.listing, l.code ≠ [] → ∀ address bytes, l.address = some address →
      Denotes l.code bytes →
      ¬ (address.toNat ≤ a.start.toNat + i ∧ a.start.toNat + i < address.toNat + bytes.length)) →
    memory[i]? = some 0

/-- A program whose lines lie side by side inside it is loaded with every code at its statement. -/
theorem Assembly.Made.exists_loadsTo {settings : Settings} {source : List Statement} {a : Assembly}
    (h : a.Made settings source) (hlimit : 0 < settings.textLimit.val) {high : Nat}
    (htiles : Tiles a.start.toNat a.listing high)
    (hhigh : high ≤ a.start.toNat + a.length.toNat) :
    ∃ memory, a.program.image = .ok memory ∧ a.LoadsTo memory := by
  have hheader : a.program.header = ⟨a.name, a.start, a.length⟩ := by rw [h.program]
  have htext : a.program.text = Listing.records settings.textLimit.val a.listing := by
    rw [h.program]
  have hpositive : (0 : Int) < settings.textLimit.val := by omega
  obtain ⟨hinside, hcells⟩ := Tiles.records ⟨a.name, a.start, a.length⟩ htiles hhigh hpositive
  rw [← htext] at hinside hcells
  rw [← hheader] at hinside
  have himage := Object.Program.image_eq_store hinside
  rw [hcells, hheader] at himage
  refine ⟨_, himage, by simp, ?_, ?_⟩
  · intro l hl hcode
    obtain ⟨address, haddress, hwhole, hlow, _⟩ := htiles.exists_address l hl hcode
    refine ⟨address, bytesOf l.code, haddress, UInt32.le_iff_toNat_le.mpr hlow, hwhole.denotes, ?_⟩
    intro k hk
    rw [Object.length_bytesOf] at hk
    exact htiles.getElem?_store (by simpa using hhigh) hl hcode haddress hk
  · intro i hi hfree
    rw [Object.size_store, Array.size_replicate] at hi
    have hne : ∀ c ∈ lineCells a.listing, c.address - a.start.toNat ≠ i := by
      intro c hc
      obtain ⟨l, hl, hcode, address, haddress, hwhole, _, hlow, hlt⟩ := htiles.exists_line hc
      have hoff := hfree l hl hcode address _ haddress hwhole.denotes
      rw [Object.length_bytesOf] at hoff
      omega
    refine (Object.getElem?_store_of_ne _ hne).trans ?_
    simp [hi]

/-- With a limit on Text records, a program is loaded with the bytes of every code at the address of
its statement and zeros elsewhere, if nothing precedes the first START statement, opcodes have two
digits, addresses fit the four digits of an instruction, and no literal of digits has a body. -/
theorem exists_image_loadsTo {name : Bytes} {source : Input} {table : Opcode.Table}
    {choices : List Choice} {settings : Settings} {a : Assembly}
    (hsettings : Settings.ofChoices choices = .ok settings) (hlimit : 0 < settings.textLimit.val)
    (h : assemble name source (some table) choices = .ok a)
    (hfirst : hasStart a.statements = true → ∃ p ∈ a.statements.head?, p.isStart = true)
    (hopcodes : ∀ p ∈ a.statements, ∀ opcode, p.operation = .instruction opcode →
      opcode.length = 2 ∧ ∀ b ∈ opcode, Numeral.isHexDigit b = true)
    (hsymbols : ∀ symbol ∈ a.symbols, symbol.address.toNat ≤ 0xFFFF)
    (hliterals : ∀ l ∈ a.listing, l.operation = .byte →
      ∀ body, Literal.read l.operand = .ok (.digits body) → body = []) :
    ∃ memory, a.program.image = .ok memory ∧ a.LoadsTo memory := by
  obtain ⟨used, hused, hmade⟩ := made_of_assemble h
  obtain rfl : used = settings := Except.ok.inj (hused.symm.trans hsettings)
  have hfills : ∀ l ∈ a.listing, l.Fills l.code := by
    intro l hl
    obtain ⟨hmem, hcode⟩ := hmade.mem_statements hl
    exact Statement.fills_code hcode (hopcodes l.toPlaced hmem) hsymbols (hliterals l hl)
  obtain ⟨high, htiles, hhigh⟩ := hmade.tiles hfirst hfills
  exact hmade.exists_loadsTo hlimit htiles hhigh

/-- A source with reserved storage and an empty literal between its codes, an operand that nothing
defines, and statements behind its END statement. -/
def mixedSource : Input := .ofBytes
  (utf8 "P START ffe0\nA LDA B\nB WORD -1\nC RESW 1\nD BYTE C'^z'\nE BYTE X''\nF LDA G\nEND\n" ++
    utf8 "H RESB 2\nI LDA A")

/-- What it is loaded to. -/
def mixedMemory : Object.Memory :=
  #[0x0A, 0xFF, 0xE3, 0xFF, 0xFF, 0xFF, 0, 0, 0, 0x5E, 0x7A, 0x0A, 0, 0, 0, 0, 0, 0, 0]

theorem exists_image_loadsTo_mixedSource :
    ∃ settings a, Settings.ofChoices [.textLimit 6] = .ok settings ∧
      0 < settings.textLimit.val ∧
      assemble [] mixedSource (some loadTable) [.textLimit 6] = .ok a ∧
      a.start = 0xFFE0 ∧ a.length = 19 ∧
      a.program.image = .ok mixedMemory ∧ a.LoadsTo mixedMemory := by
  have hsettings : Settings.ofChoices [.textLimit 6] = .ok ⟨6, false⟩ := rfl
  have ha := eq_ok_of_isOk (default : Assembly)
    (x := assemble [] mixedSource (some loadTable) [.textLimit 6]) (by decide +kernel)
  generalize hresult : (assemble [] mixedSource (some loadTable) [.textLimit 6]).toOption.getD
    default = a at ha
  -- One evaluation settles everything that can be decided about the result.
  have hfacts : (hasStart a.statements = true → ∃ p ∈ a.statements.head?, p.isStart = true) ∧
      (∀ p ∈ a.statements, p.operation = .instruction p.operation.opcode →
        p.operation.opcode = utf8 "0a") ∧
      (∀ symbol ∈ a.symbols, symbol.address.toNat ≤ 0xFFFF) ∧
      (∀ l ∈ a.listing, l.operation = .byte →
        l.operand = utf8 "C'^z'" ∨ l.operand = utf8 "X''") ∧
      a.start = 0xFFE0 ∧ a.length = 19 ∧ a.program.image = .ok mixedMemory := by
    rw [← hresult]
    decide +kernel
  obtain ⟨hfirst, hspelled, hsymbols, hoperands, hstart, hlength, hmemory⟩ := hfacts
  have hopcodes : ∀ p ∈ a.statements, ∀ opcode, p.operation = .instruction opcode →
      opcode.length = 2 ∧ ∀ b ∈ opcode, Numeral.isHexDigit b = true := by
    intro p hp opcode hoperation
    have hopcode := hspelled p hp
    rw [hoperation] at hopcode
    obtain rfl : opcode = utf8 "0a" := hopcode rfl
    decide +kernel
  have hliterals : ∀ l ∈ a.listing, l.operation = .byte →
      ∀ body, Literal.read l.operand = .ok (.digits body) → body = [] := by
    intro l hl hoperation body hbody
    have hcharacters : Literal.read (utf8 "C'^z'") = .ok (.characters (utf8 "^z")) := rfl
    have hdigits : Literal.read (utf8 "X''") = .ok (.digits []) := rfl
    rcases hoperands l hl hoperation with hoperand | hoperand
    · simp [hoperand, hcharacters] at hbody
    · rw [hoperand, hdigits] at hbody
      exact (Literal.digits.inj (Except.ok.inj hbody)).symm
  obtain ⟨memory, himage, hloads⟩ :=
    exists_image_loadsTo hsettings (by decide) ha hfirst hopcodes hsymbols hliterals
  obtain rfl : memory = mixedMemory := Except.ok.inj (himage.symm.trans hmemory)
  exact ⟨_, a, hsettings, by decide, ha, hstart, hlength, himage, hloads⟩

end TwoPass
