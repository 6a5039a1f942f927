import EchoKernel.ArrayWrites
import EchoKernel.LittleEndian

namespace EchoKernel.Printk

/-!
# The kernel log buffer

`log_store` of `printk.c` with `CONFIG_PRINTK_MT_PREFIX`, on the bytes of the
log buffer. Headers have 16 bytes, and one with length zero says that the next
record is at the start of the buffer.
-/

open ArrayWrites LittleEndian

abbrev Byte := BitVec 8

def headerSize : Nat := 16

def logAlign : Nat := 4

def logLineMax : Nat := 992

def maxLogTakePart : Nat := 4

def truncMsg : List Byte := [0x3c, 0x74, 0x72, 0x75, 0x6e, 0x63, 0x61, 0x74, 0x65, 0x64, 0x3e]

/-- The log buffer and its indices. -/
structure LogBuf where
  logBufLen : Nat
  logBuf : Nat → Byte
  logFirstSeq : Nat
  logFirstIdx : Nat
  logNextSeq : Nat
  logNextIdx : Nat
  clearSeq : Nat
  clearIdx : Nat

section
variable (log : LogBuf) (memory : Nat → Byte) (idx : Nat)

/-- A field of two bytes in a header. -/
def field (place : Nat) : Nat := decode (load memory place 2)

/-- The length field of a record. -/
def msgLen : Nat := field memory (idx + 8)

/-- `text_len` of the record at an index. -/
def msgTextLen : Nat := field memory (idx + 10)

/-- `dict_len` of the record at an index. -/
def msgDictLen : Nat := field memory (idx + 12)

/-- `log_from_idx`. -/
def logFromIdx : Nat := if msgLen memory idx = 0 then 0 else idx

/-- `log_next`. -/
def logNext : Nat :=
  if msgLen memory idx = 0 then msgLen memory 0
  else idx + msgLen memory idx

/-- `log_text`. -/
def logText : List Byte := load memory (idx + headerSize) (msgTextLen memory idx)

/-- The dictionary of the record at an index. -/
def logDict : List Byte :=
  load memory (idx + headerSize + msgTextLen memory idx) (msgDictLen memory idx)

/-- `logbuf_has_space`. -/
def logbufHasSpace (msgSize : Nat) (empty : Bool) : Bool :=
  let free :=
    if log.logFirstIdx < log.logNextIdx ∨ empty = true then
      max (log.logBufLen - log.logNextIdx) log.logFirstIdx
    else log.logFirstIdx - log.logNextIdx
  decide (msgSize + headerSize ≤ free)

/-- The loop of `log_make_free_space`, over the records left. -/
def dropOld (msgSize : Nat) : Nat → LogBuf → LogBuf
  | 0, log => log
  | records + 1, log =>
    if logbufHasSpace log msgSize false then log
    else
      dropOld msgSize records { log with
          logFirstIdx := logNext log.logBuf log.logFirstIdx
          logFirstSeq := log.logFirstSeq + 1 }

/-- `log_make_free_space`; false for `-ENOMEM`. -/
def logMakeFreeSpace (msgSize : Nat) : LogBuf × Bool :=
  let dropped := dropOld msgSize (log.logNextSeq - log.logFirstSeq) log
  let cleared :=
    if dropped.clearSeq < dropped.logFirstSeq then
      { dropped with clearSeq := dropped.logFirstSeq, clearIdx := dropped.logFirstIdx }
    else dropped
  (cleared, logbufHasSpace cleared msgSize (decide (cleared.logFirstSeq = cleared.logNextSeq)))

/-- The padding of `msg_used_size`. -/
def padLen (textLen dictLen : Nat) : Nat :=
  (logAlign - (headerSize + textLen + dictLen) % logAlign) % logAlign

/-- `msg_used_size`; the lengths are of type `u16`. -/
def msgUsedSize (textLen dictLen : Nat) : Nat :=
  headerSize + textLen + dictLen + padLen textLen dictLen

/-- The arguments of `log_store`, and its prefix. -/
structure StoreCall where
  facility : Nat
  level : Nat
  flags : Nat
  tsNsec : Nat
  localClock : Nat
  tbuf : List Byte
  dict : List Byte
  text : List Byte
  textFits : text.length ≤ logLineMax
  dictIsU16 : dict.length < 2 ^ 16
  tbufFits : tbuf.length < 50

variable (call : StoreCall)

/-- The lengths with which a record is stored. -/
structure Layout where
  size : Nat
  textLen : Nat
  dictLen : Nat
  padLen : Nat
  trunc : List Byte
  deriving Repr, DecidableEq

variable (layout : Layout)

/-- The lengths of a record that is not cut. -/
def plainLayout : Layout :=
  let textLen := call.text.length + call.tbuf.length
  ⟨msgUsedSize textLen call.dict.length, call.text.length, call.dict.length,
    padLen textLen call.dict.length, []⟩

/-- `truncate_msg`. -/
def truncateMsg : Layout :=
  let maxTextLen := log.logBufLen / maxLogTakePart
  let textLen := min call.text.length maxTextLen
  ⟨msgUsedSize (textLen + truncMsg.length) 0, textLen, 0,
    padLen (textLen + truncMsg.length) 0, truncMsg⟩

/-- Space for the record, and its lengths; none if dropped. -/
def reserve : LogBuf × Option Layout :=
  let layout := plainLayout call
  match logMakeFreeSpace log layout.size with
  | (log, true) => (log, some layout)
  | (log, false) =>
    let layout := truncateMsg log call
    match logMakeFreeSpace log layout.size with
    | (log, true) => (log, some layout)
    | (log, false) => (log, none)

/-- The caller's text that fits a line after the prefix. -/
def lineText : List Byte :=
  if logLineMax < call.tbuf.length + layout.textLen then
    call.text.take (logLineMax - call.tbuf.length)
  else call.text.take layout.textLen

/-- The text of a record. -/
def recordText : List Byte := call.tbuf ++ lineText call layout ++ layout.trunc

/-- The dictionary of a record. -/
def recordDict : List Byte := call.dict.take layout.dictLen

/-- The record starts at the next index, or at the buffer's start. -/
def wraps : Bool :=
  decide (log.logBufLen < log.logNextIdx + layout.size + headerSize)

/-- Where the record is stored. -/
def recordIdx : Nat := if wraps log layout then 0 else log.logNextIdx

/-- The header that marks the end of the buffer. -/
def markerWrites : List (Write Byte) :=
  if wraps log layout then [(log.logNextIdx, List.replicate headerSize 0)]
  else []

/-- The writes that fill the record, in the order of the source. -/
def recordWrites (idx : Nat) : List (Write Byte) :=
  let text := idx + headerSize
  let line := lineText call layout
  let textLen := call.tbuf.length + line.length
  let fullLen := textLen + layout.trunc.length
  [(text, call.tbuf), (text + call.tbuf.length, line), (idx + 10, encode 2 textLen),
    (text + textLen, layout.trunc), (idx + 10, encode 2 fullLen),
    (text + fullLen, recordDict call layout), (idx + 12, encode 2 layout.dictLen),
    (idx + 14, [BitVec.ofNat 8 call.facility]),
    (idx + 15, [BitVec.ofNat 8 (call.flags % 32 + call.level % 8 * 32)]),
    (idx, encode 8 (if 0 < call.tsNsec then call.tsNsec else call.localClock)),
    (text + fullLen + layout.dictLen, List.replicate layout.padLen 0),
    (idx + 8, encode 2 layout.size)]

/-- All writes of a record to the log buffer. -/
def storeWrites : List (Write Byte) :=
  markerWrites log layout ++ recordWrites call layout (recordIdx log layout)

/-- The record is stored and the indices are advanced. -/
def insertRecord : LogBuf :=
  let memory := storeAll log.logBuf (storeWrites log call layout)
  { log with
    logBuf := memory
    logNextIdx := recordIdx log layout + msgLen memory (recordIdx log layout)
    logNextSeq := log.logNextSeq + 1 }

/-- `log_store`. -/
def logStore : LogBuf :=
  match reserve log call with
  | (log, some layout) => insertRecord log call layout
  | (log, none) => log

/-- A record that a reader sees. -/
structure Seen where
  idx : Nat
  len : Nat
  text : List Byte
  dict : List Byte
  deriving Repr, DecidableEq

/-- The record that a reader finds at an index. -/
def seenAt : Seen :=
  let start := logFromIdx memory idx
  ⟨start, msgLen memory start, logText memory start, logDict memory start⟩

/-- The records from an index on, with `log_next`. -/
def walkFrom (memory : Nat → Byte) : Nat → Nat → List Seen
  | 0, _ => []
  | records + 1, idx => seenAt memory idx :: walkFrom memory records (logNext memory idx)

/-- The records of the log buffer, oldest first. -/
def walk : List Seen := walkFrom log.logBuf (log.logNextSeq - log.logFirstSeq) log.logFirstIdx

end

end EchoKernel.Printk
