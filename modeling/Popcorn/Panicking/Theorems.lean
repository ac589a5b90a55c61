import Popcorn.Panicking.SymbolMap

/-!
# What `get_symbol_name` answers, and where it panics

A map in the format README prescribes for `kernel-X.map` is a list of lines (`MapLine`):
sixteen hex digits, a space, a one-byte type letter, a space and a name, each line ended by a
`\n`, sorted by address. On such a map `SymbolMapIterator::next` yields each line's address
and name in turn (`next_line`), and `get_symbol_name(ip)` answers the name of the last line
whose address is not zero and at most `ip`, or `"<unknown>"` (`getSymbolName_lines`).

On other maps it can panic, inside the panic handler's stack trace. The scan for a line's
`\n` is bounded only by the `\n`: a map whose last line has no line break panics once the
lookup reaches that line (`getSymbolName_unterminated`). So does a line shorter than sixteen
bytes (`next_short`), where the `.ok()?` on the UTF-8 and hex errors shows that a malformed
line was meant to end the lookup.
-/

namespace Popcorn.Panicking

open Str

/-- A hex digit is an ASCII byte, and not a line break. -/
theorem lt_of_toDigit16 {c : UInt8} (h : (toDigit16 c).isSome = true) : c < 0x80 ∧ c ≠ 10 := by
  simp only [toDigit16, UInt8.le_iff_toNat_le] at h
  constructor
  · rw [UInt8.lt_iff_toNat_lt]
    split_ifs at h <;> simp_all <;> omega
  · rintro rfl
    simp at h

/-- The scan for a line break from the start of a line stops at the line's end. -/
theorem findIdx?_newline {body : List UInt8} (h : (10 : UInt8) ∉ body) (rest : List UInt8) :
    (body ++ 10 :: rest).findIdx? (fun b => b == 10) = some body.length := by
  induction body with
  | nil => simp [List.findIdx?_cons]
  | cons b body ih =>
    have hb : b ≠ 10 := fun hb => h (hb ▸ List.mem_cons_self)
    rw [List.cons_append, List.findIdx?_cons, ih fun h' => h (List.mem_cons_of_mem b h')]
    simp [hb]

/-! ## Well-formed maps -/

/-- A line of a map in `nm`'s BSD format, as README prescribes for `kernel-X.map`: sixteen
hex digits of the address, a space, the type letter (one byte), a space and the name, which
is UTF-8 without a line break. -/
structure MapLine where
  digits : List UInt8
  ty : UInt8
  name : List UInt8
  digits_length : digits.length = 16
  digits_hex : ∀ c ∈ digits, (toDigit16 c).isSome = true
  ty_ascii : ty < 0x80
  ty_ne_newline : ty ≠ 10
  name_valid : valid name = true
  name_no_newline : (10 : UInt8) ∉ name

namespace MapLine

/-- The line's address. -/
def addr (l : MapLine) : ℕ := hexValue l.digits

/-- The line without its line break. -/
def text (l : MapLine) : List UInt8 := l.digits ++ [0x20, l.ty, 0x20] ++ l.name

/-- The line's bytes. -/
def bytes (l : MapLine) : List UInt8 := l.text ++ [10]

variable (l : MapLine)

theorem text_eq : l.text = l.digits ++ ([0x20, l.ty, 0x20] ++ l.name) := List.append_assoc _ _ _

theorem valid_tail : valid ([0x20, l.ty, 0x20] ++ l.name) = true :=
  valid_ascii_append (by simp [l.ty_ascii]) l.name_valid

theorem valid_text : valid l.text = true := by
  rw [text_eq]
  exact valid_ascii_append (fun c hc => (lt_of_toDigit16 (l.digits_hex c hc)).1) l.valid_tail

theorem newline_not_mem_text : (10 : UInt8) ∉ l.text := by
  simp only [text, List.mem_append, List.mem_cons, List.not_mem_nil, or_false, not_or]
  refine ⟨⟨fun h => (lt_of_toDigit16 (l.digits_hex 10 h)).2 rfl, by decide,
    fun h => l.ty_ne_newline h.symm, by decide⟩, l.name_no_newline⟩

theorem slice_text : slice l.text 0 16 = some l.digits := by
  rw [text_eq, ← l.digits_length]
  exact slice_append l.digits l.valid_tail

theorem sliceFrom_text : sliceFrom l.text 19 = some l.name := by
  have hlen : (l.digits ++ [0x20, l.ty, 0x20]).length = 19 := by simp [l.digits_length]
  rw [text, ← hlen]
  exact sliceFrom_append _ l.name_valid

theorem length_bytes_pos : 0 < l.bytes.length := by simp [bytes]

end MapLine

/-- `next` at the start of a line without a line break reads that line, and moves past its
line break. -/
theorem next_text (pre text rest : List UInt8) (hnl : (10 : UInt8) ∉ text) :
    SymbolMapIterator.next (pre ++ (text ++ 10 :: rest)) pre.length =
      if !valid text then some none
      else
        (slice text 0 16).bind fun addr =>
          (sliceFrom text 19).map fun name =>
            (fromStrRadix16 addr).map fun addr => ((addr, name), pre.length + text.length + 1) := by
  have hne : pre.length ≠ (pre ++ (text ++ 10 :: rest)).length := by
    simp only [List.length_append, List.length_cons]
    omega
  have hfind : ((pre ++ (text ++ 10 :: rest)).drop pre.length).findIdx? (fun b => b == 10) =
      some text.length := by
    rw [List.drop_left]
    exact findIdx?_newline hnl rest
  have hdata : ((pre ++ (text ++ 10 :: rest)).take (pre.length + text.length)).drop pre.length =
      text := by
    simp [List.take_append]
  unfold SymbolMapIterator.next
  simp only [hne, if_false, hfind, hdata]

/-- `next` at the start of a well-formed line yields its address and name, and moves past
its line break. -/
theorem next_line (pre : List UInt8) (l : MapLine) (rest : List UInt8) :
    SymbolMapIterator.next (pre ++ (l.bytes ++ rest)) pre.length =
      some (some ((l.addr, l.name), (pre ++ l.bytes).length)) := by
  rw [MapLine.bytes, List.append_assoc, List.singleton_append,
    next_text pre l.text rest l.newline_not_mem_text]
  simp only [l.valid_text, Bool.not_true, Bool.false_eq_true, if_false, l.slice_text,
    Option.bind_some, l.sliceFrom_text, Option.map_some,
    fromStrRadix16_hex l.digits_length l.digits_hex]
  simp [MapLine.addr, Nat.add_assoc]

/-- At the end of the map the iteration ends. -/
theorem next_end (str : List UInt8) : SymbolMapIterator.next str str.length = some none := by
  simp [SymbolMapIterator.next]

/-- The name a list of lines gives `ip` after a lookup that kept `symName`: that of the last
line whose address is not zero and at most `ip`, or `symName`. -/
def lastName (lines : List MapLine) (ip : ℕ) (symName : List UInt8) : List UInt8 :=
  ((lines.filter fun l => l.addr ≠ 0 ∧ l.addr ≤ ip).getLast?.map MapLine.name).getD symName

/-- The loop over well-formed lines sorted by address, with more turns than lines, answers the
name of the last line whose address is not zero and at most `ip`: up to its first address past
`ip` it keeps each non-zero one, and after it there are only addresses past `ip`. -/
theorem symbolLoop_lines (ip : ℕ) (lines : List MapLine)
    (hsorted : lines.Pairwise fun a b => a.addr ≤ b.addr) :
    ∀ (pre symName : List UInt8) (fuel : ℕ), lines.length < fuel →
      symbolLoop ip (pre ++ lines.flatMap MapLine.bytes) fuel pre.length symName =
        some (lastName lines ip symName) := by
  induction lines with
  | nil =>
    intro pre symName fuel hfuel
    obtain ⟨fuel, rfl⟩ : ∃ f, fuel = f + 1 := ⟨fuel - 1, by simp at hfuel; omega⟩
    rw [List.flatMap_nil, List.append_nil, symbolLoop, next_end, Option.bind_some]
    rfl
  | cons l lines ih =>
    intro pre symName fuel hfuel
    obtain ⟨fuel, rfl⟩ : ∃ f, fuel = f + 1 := ⟨fuel - 1, by simp at hfuel; omega⟩
    obtain ⟨hl, hsorted⟩ := List.pairwise_cons.mp hsorted
    have hfuel' : lines.length < fuel := by simp at hfuel; omega
    have hrest := ih hsorted (pre ++ l.bytes)
    rw [List.append_assoc] at hrest
    rw [List.flatMap_cons, symbolLoop, next_line, Option.bind_some]
    dsimp only
    split_ifs with hgt hzero
    · -- past `ip`: so is every line after it, and the lookup stops
      have hnil : (l :: lines).filter (fun l => l.addr ≠ 0 ∧ l.addr ≤ ip) = [] := by
        rw [List.filter_eq_nil_iff]
        intro l' hl'
        rcases List.mem_cons.mp hl' with rfl | hl'
        · simp
          omega
        · have := hl l' hl'
          simp
          omega
      unfold lastName
      rw [hnil]
      rfl
    · rw [hrest l.name fuel hfuel']
      have hkeep : decide (l.addr ≠ 0 ∧ l.addr ≤ ip) = true := by simp; omega
      simp only [lastName, List.filter_cons, hkeep, if_true, List.getLast?_cons]
      cases (lines.filter fun l => l.addr ≠ 0 ∧ l.addr ≤ ip).getLast? <;> rfl
    · rw [hrest symName fuel hfuel']
      have hskip : decide (l.addr ≠ 0 ∧ l.addr ≤ ip) = false := by simp; omega
      simp only [lastName, List.filter_cons, hskip, Bool.false_eq_true, if_false]

theorem length_le_length_flatMap (lines : List MapLine) :
    lines.length ≤ (lines.flatMap MapLine.bytes).length := by
  induction lines with
  | nil => simp
  | cons l lines ih =>
    have := l.length_bytes_pos
    simp only [List.flatMap_cons, List.length_append, List.length_cons]
    omega

/-- On a well-formed map sorted by address, `get_symbol_name(ip)` answers the name of the last
line whose address is not zero and at most `ip`, or `"<unknown>"`. -/
theorem getSymbolName_lines (lines : List MapLine)
    (hsorted : lines.Pairwise fun a b => a.addr ≤ b.addr) (ip : ℕ) :
    getSymbolName (some (lines.flatMap MapLine.bytes)) ip = some (lastName lines ip unknown) :=
  symbolLoop_lines ip lines hsorted [] unknown _
    (Nat.lt_succ_of_le (length_le_length_flatMap lines))

example : getSymbolName (some (asciiBytes
    "0000000000000000 a zero\n0000000000001000 T main\n0000000000002000 t helper\n")) 0x1800 =
      some (asciiBytes "main") := by
  decide

/-! ## Maps that make it panic -/

/-- A last line without its line break: the scan for the `\n` runs off the end of the map. -/
theorem next_unterminated (pre : List UInt8) {tail : List UInt8} (htail : tail ≠ [])
    (hnl : (10 : UInt8) ∉ tail) : SymbolMapIterator.next (pre ++ tail) pre.length = none := by
  have hne : pre.length ≠ (pre ++ tail).length := by
    have := List.length_pos_of_ne_nil htail
    simp only [List.length_append]
    omega
  have hfind : ((pre ++ tail).drop pre.length).findIdx? (fun b => b == 10) = none := by
    rw [List.drop_left, List.findIdx?_eq_none_iff]
    intro b hb
    simpa using fun h : b = 10 => hnl (h ▸ hb)
  unfold SymbolMapIterator.next
  simp only [hne, if_false, hfind]

/-- A UTF-8 line shorter than sixteen bytes: slicing its address off panics. -/
theorem next_short (pre : List UInt8) {text : List UInt8} (hvalid : valid text = true)
    (hnl : (10 : UInt8) ∉ text) (hshort : text.length < 16) (rest : List UInt8) :
    SymbolMapIterator.next (pre ++ (text ++ 10 :: rest)) pre.length = none := by
  -- `16` is past the end of the line, so it is no character boundary
  have hslice : slice text 0 16 = none := by
    have hboundary : isCharBoundary text 16 = false := by
      simp [isCharBoundary, List.getElem?_eq_none (by omega : text.length ≤ 16)]
      omega
    simp [slice, hboundary]
  rw [next_text pre text rest hnl]
  simp only [hvalid, Bool.not_true, Bool.false_eq_true, if_false, hslice, Option.bind_none]

/-- A map whose last line has no line break makes `get_symbol_name` panic once the lookup
reaches that line, that is when no line before it has an address past `ip`. -/
theorem getSymbolName_unterminated (lines : List MapLine) {tail : List UInt8} (htail : tail ≠ [])
    (hnl : (10 : UInt8) ∉ tail) (ip : ℕ) (hle : ∀ l ∈ lines, l.addr ≤ ip) :
    getSymbolName (some (lines.flatMap MapLine.bytes ++ tail)) ip = none := by
  -- the loop ends at the last line, or at the end of its turns, with a panic
  have hloop : ∀ (lines : List MapLine), (∀ l ∈ lines, l.addr ≤ ip) →
      ∀ (pre symName : List UInt8) (fuel : ℕ),
        symbolLoop ip (pre ++ (lines.flatMap MapLine.bytes ++ tail)) fuel pre.length symName =
          none := by
    intro lines
    induction lines with
    | nil =>
      intro _ pre symName fuel
      cases fuel with
      | zero => rfl
      | succ fuel =>
        rw [List.flatMap_nil, List.nil_append, symbolLoop, next_unterminated pre htail hnl,
          Option.bind_none]
    | cons l lines ih =>
      intro hle pre symName fuel
      cases fuel with
      | zero => rfl
      | succ fuel =>
        have hl : ¬l.addr > ip := Nat.not_lt.mpr (hle l (by simp))
        have hrest := ih (fun l' hl' => hle l' (by simp [hl'])) (pre ++ l.bytes)
        simp only [List.append_assoc] at hrest
        rw [List.flatMap_cons, List.append_assoc, symbolLoop, next_line, Option.bind_some]
        dsimp only
        rw [if_neg hl]
        split_ifs
        · exact hrest l.name fuel
        · exact hrest symName fuel
  exact hloop lines hle [] unknown _

/-- A one-line map missing its final line break. -/
def unterminatedMap : List UInt8 := asciiBytes "0000000000001000 T main"

theorem getSymbolName_panics_on_unterminatedMap (ip : ℕ) :
    getSymbolName (some unterminatedMap) ip = none :=
  getSymbolName_unterminated [] (by decide) (by decide) ip (by simp)

end Popcorn.Panicking
