import VirtioBench.Lib.Hexdump

/- The hexadecimal dumps the sniffers print: `print_payload` of sniffex.c (code_dump/vm_tap,
   the same file as guest_to_host/read_tap_pcap.c), a row of 16 bytes at a time with its
   offset, and `PrintData` of sniff.c (code_dump/vm_tap, also raw_sockets/raw_eth_receive.c and
   raw_sockets/sniffer/rcv.c), a byte at a time.

   Correspondence (C ↔ Lean):
     `print_hex_ascii_line`  ↔ `printHexAsciiLine`
     `print_payload`         ↔ `printPayload`, its `for (;;)` ↔ `printLines`
     `PrintData`             ↔ `printData`, one iteration ↔ `printByte`
   A pointer is an offset into a buffer, and the text printed is a list of characters.

   Both columns of every row stand where the reader of a dump expects them, so what was printed
   can be read back: `payload_dump` and `data_dump` say which rows there are and that
   their bytes are the bytes dumped. -/
namespace VirtioBench.Sniff

open Bytes Hexdump

/-- `isprint` in the C locale. -/
def isprint (b : UInt8) : Bool := 0x20 ≤ b && b ≤ 0x7e

def printable (b : UInt8) : Char := if isprint b then Char.ofNat b.toNat else '.'

def printHexAsciiLine (b : Buffer) (payload len offset : Nat) : List Char :=
  decPad 5 offset ++ blanks 3
    ++ (List.range len).flatMap (fun i =>
        hexByte lowerDigit (b (payload + i)) ++ [' '] ++ if i = 7 then [' '] else [])
    ++ (if len < 8 then [' '] else [])
    ++ (if len < 16 then (List.range (16 - len)).flatMap (fun _ => blanks 3) else [])
    ++ blanks 3
    ++ (List.range len).map (fun i => printable (b (payload + i)))
    ++ ['\n']

/-- The loop of `print_payload`, which is entered with more than a line to print. -/
def printLines (b : Buffer) (ch lenRem offset : Nat) (_h : 16 < lenRem) : List Char :=
  let lineLen := 16 % lenRem
  printHexAsciiLine b ch lineLen offset ++
    if h' : lenRem - lineLen ≤ 16 then
      printHexAsciiLine b (ch + lineLen) (lenRem - lineLen) (offset + 16)
    else
      printLines b (ch + lineLen) (lenRem - lineLen) (offset + 16) (by omega)
termination_by lenRem
decreasing_by
  have h16 : 16 % lenRem = 16 := Nat.mod_eq_of_lt _h
  omega

def printPayload (b : Buffer) (payload : Nat) (len : Int) : List Char :=
  if len ≤ 0 then []
  else if h : 16 < len.toNat then printLines b payload len.toNat 0 h
  else printHexAsciiLine b payload len.toNat 0

/-- A character of `PrintData`'s right column. -/
def dataChar (b : UInt8) : Char := if 32 ≤ b ∧ b ≤ 128 then Char.ofNat b.toNat else '.'

def printByte (b : Buffer) (data : Nat) (size : Int) (i : Nat) : List Char :=
  -- one line of hex printing is complete
  (if i ≠ 0 ∧ i % 16 = 0 then
    blanks 9 ++ (List.range 16).map (fun j => dataChar (b (data + (i - 16 + j)))) ++ ['\n'] else [])
    ++ (if i % 16 = 0 then blanks 3 else [])
    ++ ' ' :: hexByte upperDigit (b (data + i))
    ++ (if (i : Int) = size - 1 then
        (List.range (15 - i % 16)).flatMap (fun _ => blanks 3) ++ blanks 9
          ++ (List.range (i % 16 + 1)).map (fun j => dataChar (b (data + (i - i % 16 + j)))) ++ ['\n']
      else [])

def printData (b : Buffer) (data : Nat) (size : Int) : List Char :=
  (List.range size.toNat).flatMap (printByte b data size)

/-! ## Reading a row back -/

/-- A row of a dump: the bytes of its left column, the characters of its right one. -/
structure Row where
  bytes : List UInt8
  text : List Char
  deriving DecidableEq, Repr

/-- The row of `len` bytes from `off` on. -/
def rowAt (char : UInt8 → Char) (b : Buffer) (off len : Nat) : Row :=
  ⟨read b off len, (read b off len).map char⟩

/-- The `k`-th row of a dump of `n` bytes. -/
def rowOf (char : UInt8 → Char) (b : Buffer) (off n k : Nat) : Row :=
  rowAt char b (off + 16 * k) (min 16 (n - 16 * k))

/-- After the offset and three blanks, 49 columns of bytes and three blanks. -/
def readPayloadRow (line : List Char) : Nat × Row :=
  let rest := line.dropWhile Char.isDigit
  (readNat line, ⟨readHex ((rest.drop 3).take 49), rest.drop 55⟩)

/-- After three blanks, 48 columns of bytes and nine blanks. -/
def readDataRow (line : List Char) : Row :=
  ⟨readHex ((line.drop 3).take 48), line.drop 60⟩

variable {b : Buffer} {char : UInt8 → Char} {payload data len offset n : Nat}

theorem flatMap_rowOf (off n : Nat) :
    ((List.range ((n + 15) / 16)).map (rowOf char b off n)).flatMap Row.bytes = read b off n := by
  have hcut := flatMap_chunks (by decide : 0 < 16) (fun i => [b (off + i)]) n
  simp only [← List.map_eq_flatMap] at hcut
  calc ((List.range ((n + 15) / 16)).map (rowOf char b off n)).flatMap Row.bytes
      = (List.range ((n + 15) / 16)).flatMap (fun k => (List.range (min 16 (n - 16 * k))).map
          (fun i => b (off + (16 * k + i)))) := by
        simp only [List.flatMap_map, rowOf, rowAt, Bytes.read, Nat.add_assoc]
    _ = read b off n := hcut.symm

/-! ## `print_payload` -/

/-- The left column of `printHexAsciiLine`. -/
def hexColumn (b : Buffer) (payload len : Nat) : List Char :=
  (List.range len).flatMap (fun i =>
      hexByte lowerDigit (b (payload + i)) ++ [' '] ++ if i = 7 then [' '] else [])
    ++ (if len < 8 then [' '] else [])
    ++ (if len < 16 then (List.range (16 - len)).flatMap (fun _ => blanks 3) else [])

theorem length_hexes (b : Buffer) (payload len : Nat) :
    ((List.range len).flatMap (fun i => hexByte lowerDigit (b (payload + i)) ++ [' '] ++
      if i = 7 then [' '] else [])).length = 3 * len + if 7 < len then 1 else 0 := by
  induction len with
  | zero => rfl
  | succ len ih =>
    rw [List.range_succ, List.flatMap_append, List.length_append, ih]
    by_cases h7 : len = 7
    · simp [hexByte, h7]
    · by_cases hlt : 7 < len
      · simp [hexByte, h7, hlt, show 7 < len + 1 by omega]
        omega
      · simp [hexByte, h7, hlt, show ¬ 7 < len + 1 by omega]
        omega

/-- The left column is as wide in a short row as in a full one. -/
theorem length_hexColumn (hlen : len ≤ 16) : (hexColumn b payload len).length = 49 := by
  rw [hexColumn, List.length_append, List.length_append, length_hexes]
  by_cases h8 : len < 8
  · simp [h8, show ¬ 7 < len by omega, show len < 16 by omega]
    omega
  · by_cases h16 : len < 16
    · simp [h8, show 7 < len by omega, h16]
      omega
    · simp [h8, h16, show 7 < len by omega]
      omega

theorem readHex_hexColumn : readHex (hexColumn b payload len) = read b payload len := by
  have hpiece : ∀ i text, readHex (hexByte lowerDigit (b (payload + i)) ++ [' '] ++
      (if i = 7 then [' '] else []) ++ text) = b (payload + i) :: readHex text := by
    intro i text
    have hafter : Skipped ([' '] ++ if i = 7 then [' '] else []) :=
      skipped_of_blank (by grind)
    rw [List.append_assoc, List.append_assoc, ← List.append_assoc [' '], readHex_byte lowerDigits,
      hafter.readHex]
  have hgap : Skipped ((if len < 8 then [' '] else []) ++
      (if len < 16 then (List.range (16 - len)).flatMap (fun _ => blanks 3) else [])) := by
    apply skipped_of_blank
    simp only [blanks]
    grind
  rw [hexColumn, List.append_assoc, readHex_flatMap hpiece, hgap.readHex_nil, List.append_nil]
  rfl

/-- A line of `printHexAsciiLine`, without its newline. -/
def payloadLine (b : Buffer) (payload len offset : Nat) : List Char :=
  decPad 5 offset ++ (blanks 3 ++ (hexColumn b payload len ++
    (blanks 3 ++ (List.range len).map (fun i => printable (b (payload + i))))))

theorem printHexAsciiLine_eq :
    printHexAsciiLine b payload len offset = payloadLine b payload len offset ++ ['\n'] := by
  simp [printHexAsciiLine, payloadLine, hexColumn]

theorem readPayloadRow_payloadLine (hlen : len ≤ 16) :
    readPayloadRow (payloadLine b payload len offset) = (offset, rowAt printable b payload len) := by
  have hhead : (blanks 3 ++ (hexColumn b payload len ++ (blanks 3 ++
      (List.range len).map (fun i => printable (b (payload + i)))))).head?.all
        (fun c => !c.isDigit) := rfl
  have hcolumn : (hexColumn b payload len).length = 49 := length_hexColumn hlen
  have hbytes : ((blanks 3 ++ (hexColumn b payload len ++ (blanks 3 ++
      (List.range len).map (fun i => printable (b (payload + i)))))).drop 3).take 49 =
        hexColumn b payload len := by
    rw [List.drop_left' (length_blanks 3), List.take_left' hcolumn]
  have htext : (blanks 3 ++ (hexColumn b payload len ++ (blanks 3 ++
      (List.range len).map (fun i => printable (b (payload + i)))))).drop 55 =
        (read b payload len).map printable := by
    rw [← List.append_assoc, ← List.append_assoc, List.drop_left' (by simp [hcolumn])]
    simp [Bytes.read]
  rw [readPayloadRow, payloadLine, readNat_decPad 5 offset hhead, dropWhile_decPad 5 offset hhead]
  simp only [hbytes, htext, readHex_hexColumn]
  rfl

theorem printable_ne_newline (c : UInt8) : printable c ≠ '\n' := by
  rw [printable]
  split
  · rename_i h
    have h32 : 32 ≤ c := by
      simp only [isprint, Bool.and_eq_true, decide_eq_true_eq] at h
      exact h.1
    exact char_ne_newline h32
  · decide

theorem newline_not_mem_payloadLine : '\n' ∉ payloadLine b payload len offset := by
  have hhex : ∀ i, '\n' ∉ hexByte lowerDigit (b (payload + i)) :=
    fun i => newline_not_mem_hexByte lowerDigits _
  simp only [payloadLine, hexColumn, List.mem_append, List.mem_flatMap, List.mem_map,
    newline_not_mem_decPad, newline_not_mem_blanks, hhex]
  grind [printable_ne_newline, newline_not_mem_blanks]

/-- The loop of `print_payload` prints a line for every 16 bytes, and one for what is left. -/
theorem printLines_eq (b : Buffer) (ch lenRem offset : Nat) (h : 16 < lenRem) :
    printLines b ch lenRem offset h = (List.range ((lenRem + 15) / 16)).flatMap (fun k =>
      payloadLine b (ch + 16 * k) (min 16 (lenRem - 16 * k)) (offset + 16 * k) ++ ['\n']) := by
  induction lenRem using Nat.strongRecOn generalizing ch offset with
  | ind lenRem ih =>
    have h16 : 16 % lenRem = 16 := Nat.mod_eq_of_lt h
    have hcount : (lenRem + 15) / 16 = (lenRem - 16 + 15) / 16 + 1 := by omega
    have hmin : min 16 (lenRem - 16 * 0) = 16 := by omega
    have hrest : ∀ k, lenRem - 16 * (k + 1) = lenRem - 16 - 16 * k := by
      intro k
      omega
    have hshift : ∀ a k : Nat, a + 16 * (k + 1) = a + 16 + 16 * k := by
      intro a k
      omega
    rw [printLines, hcount, List.range_succ_eq_map, List.flatMap_cons, List.flatMap_map, hmin]
    simp only [h16, printHexAsciiLine_eq, Nat.mul_zero, Nat.add_zero, hrest, hshift]
    congr 1
    split
    · rename_i hlast
      have hone : (lenRem - 16 + 15) / 16 = 1 := by omega
      rw [hone]
      simp [List.range_succ, Nat.min_eq_right hlast]
    · rename_i hmore
      exact ih (lenRem - 16) (by omega) (ch + 16) (offset + 16) (by omega)

theorem printPayload_eq (b : Buffer) (payload : Nat) (len : Int) :
    printPayload b payload len = (List.range ((len.toNat + 15) / 16)).flatMap (fun k =>
      payloadLine b (payload + 16 * k) (min 16 (len.toNat - 16 * k)) (16 * k) ++ ['\n']) := by
  rw [printPayload]
  split
  · rename_i hneg
    simp [Int.toNat_of_nonpos hneg]
  · rename_i hpos
    split
    · rename_i h
      simpa using printLines_eq b payload len.toNat 0 h
    · rename_i h
      have hone : (len.toNat + 15) / 16 = 1 := by omega
      have hmin : min 16 len.toNat = len.toNat := by omega
      simp [hone, List.range_succ, printHexAsciiLine_eq, hmin]

theorem rows_printPayload (b : Buffer) (payload : Nat) (len : Int) :
    (rows (printPayload b payload len)).map readPayloadRow =
      (List.range ((len.toNat + 15) / 16)).map (fun k =>
        (16 * k, rowOf printable b payload len.toNat k)) := by
  have hrow : ∀ k, readPayloadRow (payloadLine b (payload + 16 * k) (min 16 (len.toNat - 16 * k))
      (16 * k)) = (16 * k, rowOf printable b payload len.toNat k) :=
    fun k => readPayloadRow_payloadLine (by omega)
  calc (rows (printPayload b payload len)).map readPayloadRow
      = ((List.range ((len.toNat + 15) / 16)).map (fun k => payloadLine b (payload + 16 * k)
          (min 16 (len.toNat - 16 * k)) (16 * k))).map readPayloadRow := by
        rw [printPayload_eq, rows_flatMap _ (fun k _ => newline_not_mem_payloadLine)]
    _ = _ := by
        rw [List.map_map]
        exact List.map_congr_left (fun k _ => hrow k)

/-- The bytes of a dump. -/
def dumped (text : List Char) : List UInt8 :=
  (((rows text).map readPayloadRow).map Prod.snd).flatMap Row.bytes

theorem dumped_printPayload (b : Buffer) (payload : Nat) (len : Int) :
    dumped (printPayload b payload len) = read b payload len.toNat := by
  rw [dumped, rows_printPayload, List.map_map]
  exact flatMap_rowOf payload len.toNat

/-- `print_payload` prints the bytes of the payload and no others. -/
theorem printPayload_congr {b' : Buffer} {payload : Nat} {len : Int}
    (h : read b payload len.toNat = read b' payload len.toNat) :
    printPayload b payload len = printPayload b' payload len := by
  have hbyte : ∀ i, i < len.toNat → b (payload + i) = b' (payload + i) :=
    fun i hi => List.map_inj_left.mp h i (List.mem_range.mpr hi)
  rw [printPayload_eq, printPayload_eq]
  apply List.flatMap_congr
  intro k hk
  have hline : ∀ i ∈ List.range (min 16 (len.toNat - 16 * k)),
      b (payload + 16 * k + i) = b' (payload + 16 * k + i) := by
    intro i hi
    have hi' := List.mem_range.mp hi
    rw [Nat.add_assoc]
    exact hbyte (16 * k + i) (by omega)
  have hhex : hexColumn b (payload + 16 * k) (min 16 (len.toNat - 16 * k)) =
      hexColumn b' (payload + 16 * k) (min 16 (len.toNat - 16 * k)) := by
    rw [hexColumn, hexColumn, List.flatMap_congr (fun i hi => by rw [hline i hi])]
  rw [payloadLine, payloadLine, hhex, List.map_congr_left (fun i hi => by rw [hline i hi])]

/-- Every payload, of any length, can be read back from what `print_payload` prints: row `k`
has the offset `16 * k`, the next (at most 16) bytes and the characters they show as. -/
theorem payload_dump (b : Buffer) (payload : Nat) (len : Int) :
    (rows (printPayload b payload len)).map readPayloadRow =
      (List.range ((len.toNat + 15) / 16)).map (fun k =>
        (16 * k, rowOf printable b payload len.toNat k)) ∧
    dumped (printPayload b payload len) = read b payload len.toNat :=
  ⟨rows_printPayload b payload len, dumped_printPayload b payload len⟩

/-! ## `PrintData` -/

/-- The bytes of a row, in `len` places of three columns. -/
def dataHexes (b : Buffer) (data len : Nat) : List Char :=
  (List.range len).flatMap (fun j => ' ' :: hexByte upperDigit (b (data + j)))

/-- What stands between the bytes of a row and its newline. -/
def dataClose (b : Buffer) (data len : Nat) : List Char :=
  (List.range (16 - len)).flatMap (fun _ => blanks 3) ++ blanks 9 ++
    (List.range len).map (fun j => dataChar (b (data + j)))

/-- The first `l` bytes of row `k` close the row before it; the last byte of all closes its own. -/
theorem flatMap_printByte (b : Buffer) (data : Nat) (size : Int) (k : Nat) {l : Nat} (hl : l ≤ 16)
    (hn : 16 * k + l ≤ size.toNat) (hpos : 0 < l) :
    (List.range l).flatMap (fun j => printByte b data size (16 * k + j)) =
      (if k = 0 then [] else dataClose b (data + 16 * (k - 1)) 16 ++ ['\n']) ++
        (blanks 3 ++ dataHexes b (data + 16 * k) l) ++
        (if 16 * k + l = size.toNat then dataClose b (data + 16 * k) l ++ ['\n'] else []) := by
  induction l with
  | zero => cases hpos
  | succ l ih =>
    have hmod : (16 * k + l) % 16 = l := by omega
    have hback : 16 * k + l - l = 16 * k := by omega
    have hlast : ((16 * k + l : Nat) : Int) = size - 1 ↔ 16 * k + (l + 1) = size.toNat := by omega
    have hgap : 15 - l = 16 - (l + 1) := by omega
    have hbyte : printByte b data size (16 * k + l) =
        (if 16 * k + l ≠ 0 ∧ l = 0 then dataClose b (data + (16 * k + l - 16)) 16 ++ ['\n'] else []) ++
          (if l = 0 then blanks 3 else []) ++ ' ' :: hexByte upperDigit (b (data + 16 * k + l)) ++
          (if 16 * k + (l + 1) = size.toNat then dataClose b (data + 16 * k) (l + 1) ++ ['\n']
            else []) := by
      simp only [printByte, dataClose, hmod, hback, hlast, hgap, Nat.add_assoc]
      simp
    rw [List.range_succ, List.flatMap_append]
    rcases Nat.eq_zero_or_pos l with rfl | hl0
    · have hlead : 16 * k + 0 - 16 = 16 * (k - 1) := by omega
      simp only [List.flatMap_singleton, hbyte, hlead, dataHexes]
      by_cases hk : k = 0
      · simp [hk]
      · simp [hk]
    · have hopen : ¬ 16 * k + l = size.toNat := by omega
      rw [ih (by omega) (by omega) hl0, List.flatMap_singleton, hbyte]
      simp [hopen, dataHexes, List.range_succ, show ¬ l = 0 by omega]

/-- A row of `PrintData`, without its newline. -/
def dataLine (b : Buffer) (data len : Nat) : List Char :=
  blanks 3 ++ dataHexes b data len ++ dataClose b data len

theorem printData_eq (b : Buffer) (data : Nat) (size : Int) :
    printData b data size = (List.range ((size.toNat + 15) / 16)).flatMap (fun k =>
      dataLine b (data + 16 * k) (min 16 (size.toNat - 16 * k)) ++ ['\n']) := by
  let close k := dataClose b (data + 16 * k) (min 16 (size.toNat - 16 * k)) ++ ['\n']
  let body k := blanks 3 ++ dataHexes b (data + 16 * k) (min 16 (size.toNat - 16 * k))
  have hblock : ∀ k ∈ List.range ((size.toNat + 15) / 16),
      (List.range (min 16 (size.toNat - 16 * k))).flatMap
        (fun j => printByte b data size (16 * k + j)) =
      (if k = 0 then [] else close (k - 1)) ++ body k ++
        (if k + 1 = (size.toNat + 15) / 16 then close k else []) := by
    intro k hk
    have hk' : k < (size.toNat + 15) / 16 := List.mem_range.mp hk
    have hfull : k ≠ 0 → min 16 (size.toNat - 16 * (k - 1)) = 16 := by omega
    have hend : 16 * k + min 16 (size.toNat - 16 * k) = size.toNat ↔
        k + 1 = (size.toNat + 15) / 16 := by omega
    rw [flatMap_printByte b data size k (by omega) (by omega) (by omega)]
    simp only [close, body, hend]
    by_cases hk0 : k = 0
    · rw [if_pos hk0, if_pos hk0]
    · rw [if_neg hk0, if_neg hk0, hfull hk0]
  calc printData b data size
      = (List.range ((size.toNat + 15) / 16)).flatMap (fun k =>
          (List.range (min 16 (size.toNat - 16 * k))).flatMap
            (fun j => printByte b data size (16 * k + j))) :=
        flatMap_chunks (by decide) _ _
    _ = (List.range ((size.toNat + 15) / 16)).flatMap (fun k =>
          (if k = 0 then [] else close (k - 1)) ++ body k ++
            (if k + 1 = (size.toNat + 15) / 16 then close k else [])) :=
        List.flatMap_congr hblock
    _ = (List.range ((size.toNat + 15) / 16)).flatMap (fun k => body k ++ close k) :=
        flatMap_close body close
    _ = _ := by simp [body, close, dataLine]

theorem readDataRow_dataLine (hlen : len ≤ 16) :
    readDataRow (dataLine b data len) = rowAt dataChar b data len := by
  have hpiece : ∀ j text, readHex (' ' :: hexByte upperDigit (b (data + j)) ++ text) =
      b (data + j) :: readHex text := by
    intro j text
    rw [List.cons_append, readHex_skip rfl, readHex_byte upperDigits]
  have hgap : Skipped ((List.range (16 - len)).flatMap (fun _ => blanks 3)) := by
    apply skipped_of_blank
    simp only [blanks]
    grind
  have hcolumn : (dataHexes b data len ++
      (List.range (16 - len)).flatMap (fun _ => blanks 3)).length = 48 := by
    simp [dataHexes, hexByte, List.length_flatMap]
    omega
  have hbytes : readHex (dataHexes b data len ++
      (List.range (16 - len)).flatMap (fun _ => blanks 3)) = read b data len := by
    rw [dataHexes, readHex_flatMap hpiece, hgap.readHex_nil, List.append_nil]
    rfl
  have hline : dataLine b data len = blanks 3 ++ ((dataHexes b data len ++
      (List.range (16 - len)).flatMap (fun _ => blanks 3)) ++ (blanks 9 ++
        (List.range len).map (fun j => dataChar (b (data + j))))) := by
    simp [dataLine, dataClose]
  have htext : (dataLine b data len).drop 60 = (read b data len).map dataChar := by
    rw [hline, ← List.append_assoc, ← List.append_assoc, List.drop_left' (by
      rw [List.length_append, List.length_append, hcolumn]
      simp)]
    simp [Bytes.read]
  rw [readDataRow, htext, hline, List.drop_left' (length_blanks 3), List.take_left' hcolumn, hbytes]
  rfl

theorem dataChar_ne_newline (c : UInt8) : dataChar c ≠ '\n' := by
  rw [dataChar]
  split
  · rename_i h
    exact char_ne_newline h.1
  · decide

theorem newline_not_mem_dataLine : '\n' ∉ dataLine b data len := by
  have hhex : ∀ j, '\n' ∉ hexByte upperDigit (b (data + j)) :=
    fun j => newline_not_mem_hexByte upperDigits _
  simp only [dataLine, dataHexes, dataClose, List.mem_append, List.mem_flatMap, List.mem_map,
    List.mem_cons, newline_not_mem_blanks, hhex]
  grind [dataChar_ne_newline]

theorem rows_printData (b : Buffer) (data : Nat) (size : Int) :
    (rows (printData b data size)).map readDataRow =
      (List.range ((size.toNat + 15) / 16)).map (rowOf dataChar b data size.toNat) := by
  calc (rows (printData b data size)).map readDataRow
      = ((List.range ((size.toNat + 15) / 16)).map (fun k =>
          dataLine b (data + 16 * k) (min 16 (size.toNat - 16 * k)))).map readDataRow := by
        rw [printData_eq, rows_flatMap _ (fun k _ => newline_not_mem_dataLine)]
    _ = _ := by
        rw [List.map_map]
        exact List.map_congr_left (fun k _ => readDataRow_dataLine (by omega))

/-- The bytes of a dump of `PrintData`. -/
def dumpedData (text : List Char) : List UInt8 := ((rows text).map readDataRow).flatMap Row.bytes

theorem dumpedData_printData (b : Buffer) (data : Nat) (size : Int) :
    dumpedData (printData b data size) = read b data size.toNat := by
  rw [dumpedData, rows_printData]
  exact flatMap_rowOf data size.toNat

theorem printData_congr {b' : Buffer} {data : Nat} {size : Int}
    (h : ∀ i, i < size.toNat → b (data + i) = b' (data + i)) :
    printData b data size = printData b' data size := by
  rw [printData_eq, printData_eq]
  apply List.flatMap_congr
  intro k hk
  have hline : ∀ i ∈ List.range (min 16 (size.toNat - 16 * k)),
      b (data + 16 * k + i) = b' (data + 16 * k + i) := by
    intro i hi
    have hi' := List.mem_range.mp hi
    rw [Nat.add_assoc]
    exact h (16 * k + i) (by omega)
  have hhexes : dataHexes b (data + 16 * k) (min 16 (size.toNat - 16 * k)) =
      dataHexes b' (data + 16 * k) (min 16 (size.toNat - 16 * k)) := by
    apply List.flatMap_congr
    intro i hi
    rw [hline i hi]
  have hclose : dataClose b (data + 16 * k) (min 16 (size.toNat - 16 * k)) =
      dataClose b' (data + 16 * k) (min 16 (size.toNat - 16 * k)) := by
    rw [dataClose, dataClose]
    congr 1
    apply List.map_congr_left
    intro i hi
    rw [hline i hi]
  rw [dataLine, dataLine, hhexes, hclose]

/-- The same of `PrintData`, whose loop closes a row when the next one begins. -/
theorem data_dump (b : Buffer) (data : Nat) (size : Int) :
    let dump := (rows (printData b data size)).map readDataRow
    dump = (List.range ((size.toNat + 15) / 16)).map (rowOf dataChar b data size.toNat) ∧
    dump.flatMap Row.bytes = read b data size.toNat :=
  ⟨rows_printData b data size, dumpedData_printData b data size⟩

end VirtioBench.Sniff
