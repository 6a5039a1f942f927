import EchoKernel.Errno
import EchoKernel.Rbtree

namespace EchoKernel.Binder

open Rbtree

/-!
# The binder buffer allocator

`drivers/android/binder_alloc.c`. The area of a process is divided into
buffers, in one list by address. Free buffers are also in a tree by size,
allocated ones in a tree by address; a size is computed from the next buffer.
Pages are populated when an allocated buffer needs them and wait on a list
when none does. `size_t` has 32 bits. Addresses are natural numbers, as the
area ends below the end of the address space. A `BUG_ON` gives `none`.
-/

/-- The address of a `struct binder_buffer`. -/
abbrev BufferPtr := Nat

def pageSize : Nat := 4096

def sizeofPtr : BitVec 32 := 4

def sizeofBinderBuffer : BitVec 32 := 48

/-- `ALIGN(size, sizeof(void *))`. -/
def alignPtr (size : BitVec 32) : BitVec 32 := (size + 3) &&& ~~~3

def pageMask (addr : Nat) : Nat := addr / pageSize * pageSize

/-- `PAGE_ALIGN`. -/
def pageAlign (addr : Nat) : Nat := pageMask (addr + (pageSize - 1))

/-- `struct binder_buffer`; `transaction`: the pointer is set. -/
structure BinderBuffer where
  data : Nat
  free : Bool
  allowUserFree : Bool
  asyncTransaction : Bool
  transaction : Bool
  dataSize : BitVec 32
  offsetsSize : BitVec 32
  extraBuffersSize : BitVec 32
  deriving Repr, DecidableEq

/-- What `kzalloc` returns. -/
def zeroedBuffer : BinderBuffer := ⟨0, false, false, false, false, 0, 0, 0⟩

/-- A list entry: not initialised, in no list, or in the list. -/
inductive LruEntry where
  | zeroed
  | empty
  | linked
  deriving Repr, DecidableEq

/-- `struct binder_lru_page`; `pagePtr`: the page is present. -/
structure BinderLruPage where
  pagePtr : Bool
  lru : LruEntry
  deriving Repr, DecidableEq

/-- The `WARN_ON` checks of the allocator. -/
inductive Warning where
  | notOnLru (index : Nat)
  | alreadyOnLru (index : Nat)
  | pagePtrCleared (index : Nat)
  | sizeMismatch
  deriving Repr, DecidableEq

/-- The page array and the warnings that were printed. -/
structure BinderPages where
  page : Nat → BinderLruPage
  pagesHigh : Nat
  warnings : List Warning

/-- `struct binder_alloc` with its buffer structures. -/
structure BinderAlloc where
  vma : Bool
  buffer : Nat
  bufferSize : Nat
  buffers : List BufferPtr
  mem : BufferPtr → BinderBuffer
  freeBuffers : RbTree BufferPtr
  allocatedBuffers : RbTree BufferPtr
  freeAsyncSpace : BitVec 32
  pages : BinderPages

/-- `binder_buffer_next`; none for the last buffer. -/
def binderBufferNext (buffer : BufferPtr) : List BufferPtr → Option BufferPtr
  | [] => none
  | first :: rest => if first = buffer then rest.head? else binderBufferNext buffer rest

/-- The buffer before `buffer`, with `prev` before the list. -/
def prevFrom (buffer : BufferPtr) : Option BufferPtr → List BufferPtr → Option BufferPtr
  | _, [] => none
  | prev, first :: rest => if first = buffer then prev else prevFrom buffer (some first) rest

section
variable (pages : BinderPages) (alloc : BinderAlloc) (buffer : BufferPtr)

/-- `binder_buffer_prev`; none for the first buffer. -/
def binderBufferPrev (buffers : List BufferPtr) : Option BufferPtr := prevFrom buffer none buffers

/-- `list_add` after a buffer. -/
def listAdd (new buffer : BufferPtr) : List BufferPtr → List BufferPtr
  | [] => []
  | first :: rest =>
    if first = buffer then first :: new :: rest
    else first :: listAdd new buffer rest

/-- `binder_alloc_buffer_size`. -/
def binderAllocBufferSize : Nat :=
  match binderBufferNext buffer alloc.buffers with
  | none => alloc.buffer + alloc.bufferSize - (alloc.mem buffer).data
  | some next => (alloc.mem next).data - (alloc.mem buffer).data

/-- Where `binder_insert_free_buffer` goes at a buffer. -/
def freeTurn (newBuffer buffer : BufferPtr) : Option Turn :=
  if (alloc.mem buffer).free then
    if binderAllocBufferSize alloc newBuffer < binderAllocBufferSize alloc buffer then some .left
    else some .right
  else none

section
variable (data index : Nat) (page : BinderLruPage) (newBuffer : BufferPtr) (base start finish : Nat)
  (dataSize offsetsSize extraBuffersSize size : BitVec 32) (isAsync : Bool)

/-- `binder_insert_free_buffer`. -/
def binderInsertFreeBuffer : Option BinderAlloc :=
  if (alloc.mem newBuffer).free then
    match walk (freeTurn alloc newBuffer) alloc.freeBuffers [] with
    | some links => some { alloc with freeBuffers := rbInsertColor newBuffer links }
    | none => none
  else none

/-- Where `binder_insert_allocated_buffer_locked` goes. -/
def allocatedTurn (newBuffer buffer : BufferPtr) : Option Turn :=
  if (alloc.mem buffer).free then none
  else if (alloc.mem newBuffer).data < (alloc.mem buffer).data then some .left
  else if (alloc.mem buffer).data < (alloc.mem newBuffer).data then some .right
  else none

/-- `binder_insert_allocated_buffer_locked`. -/
def binderInsertAllocatedBufferLocked : Option BinderAlloc :=
  if (alloc.mem newBuffer).free then none
  else
    match walk (allocatedTurn alloc newBuffer) alloc.allocatedBuffers [] with
    | some links => some { alloc with allocatedBuffers := rbInsertColor newBuffer links }
    | none => none

def BinderPages.set : BinderPages := { pages with page := Function.update pages.page index page }

/-- `WARN_ON(condition)`. -/
def BinderPages.warnOn (condition : Bool) (warning : Warning) : BinderPages :=
  if condition then { pages with warnings := warning :: pages.warnings }
  else pages

/-- `list_lru_add`, with what it returns. -/
def listLruAdd : BinderLruPage × Bool :=
  match page.lru with
  | .empty => ({ page with lru := .linked }, true)
  | _ => (page, false)

/-- `list_lru_del`; only an initialised entry can be unlinked. -/
def listLruDel : Option (BinderLruPage × Bool) :=
  match page.lru with
  | .linked => some ({ page with lru := .empty }, true)
  | .empty => some (page, false)
  | .zeroed => none

/-- One round of the loop after `free_range`. -/
def freePage : BinderPages :=
  match listLruAdd (pages.page index) with
  | (page, ret) => (pages.set index page).warnOn (!ret) (.alreadyOnLru index)

/-- What the kernel answers when a page is populated. -/
inductive PageOutcome where
  | mapped
  | allocPageFailed
  | mapKernelFailed
  | vmInsertPageFailed
  deriving Repr, DecidableEq

/-- The answers of the kernel during one allocation. -/
structure AllocEnv where
  mmgetNotZero : Bool
  page : Nat → PageOutcome
  kzalloc : Option BufferPtr

variable (env : AllocEnv)

/--
The loop that populates pages. When a page fails, the loop after `free_range`
goes on with the pages before it, in `done`.
-/
def allocatePages (env : AllocEnv) (vma : Bool) :
    List Nat → List Nat → BinderPages → Option (BinderPages × Option Errno)
  | [], _, pages => some (pages, none)
  | index :: rest, done, pages =>
    if (pages.page index).pagePtr then
      match listLruDel (pages.page index) with
      | none => none
      | some (page, onLru) =>
        allocatePages env vma rest (index :: done)
          ((pages.set index page).warnOn (!onLru) (.notOnLru index))
    else if vma then
      match env.page index with
      | .mapped =>
        allocatePages env vma rest (index :: done) { pages.set index ⟨true, .empty⟩ with
            pagesHigh := max pages.pagesHigh (index + 1) }
      | .allocPageFailed => some (done.foldl freePage pages, some .enomem)
      | .mapKernelFailed =>
        some (done.foldl freePage (pages.set index ⟨false, .empty⟩), some .enomem)
      | .vmInsertPageFailed =>
        some (done.foldl freePage (pages.set index ⟨false, .empty⟩), some .enomem)
    else some (done.foldl freePage (pages.warnOn true (.pagePtrCleared index)), some .esrch)

/-- The page indexes from `start` upwards to `finish`. -/
def indexesUp : List Nat :=
  (List.range ((finish - start + (pageSize - 1)) / pageSize)).map fun round =>
    (start + round * pageSize - base) / pageSize

/-- The page indexes from the last one before `finish` to `start`. -/
def indexesDown : List Nat :=
  (List.range ((finish - start) / pageSize)).map fun round =>
    (finish - (round + 1) * pageSize - base) / pageSize

/-- `binder_update_page_range` with `allocate` set. -/
def allocatePageRange (alloc : BinderAlloc) (start finish : Nat) :
    Option (BinderAlloc × Option Errno) :=
  if finish ≤ start then some (alloc, none)
  else
    let indexes := indexesUp alloc.buffer start finish
    let needMm := indexes.any fun index => !(alloc.pages.page index).pagePtr
    let vma := needMm && env.mmgetNotZero && alloc.vma
    if needMm && !vma then some (alloc, some .esrch)
    else
      match allocatePages env vma indexes [] alloc.pages with
      | none => none
      | some (pages, ret) => some ({ alloc with pages := pages }, ret)

/-- `binder_update_page_range` with `allocate` clear. -/
def freePageRange (start finish : Nat) : BinderAlloc :=
  if finish ≤ start then alloc
  else
    { alloc with pages := (indexesDown alloc.buffer start finish).foldl freePage alloc.pages }

/--
The search for the smallest free buffer that is large enough: the best fit,
and whether it ended at a buffer of exactly this size.
-/
def bestFit (alloc : BinderAlloc) (size : Nat) : RbTree BufferPtr → Option BufferPtr →
      Option (Option BufferPtr × Bool)
  | .null, best => some (best, false)
  | .node _ left buffer right, best =>
    if (alloc.mem buffer).free then
      if size < binderAllocBufferSize alloc buffer then bestFit alloc size left (some buffer)
      else if binderAllocBufferSize alloc buffer < size then bestFit alloc size right best
      else some (some buffer, true)
    else none

def BinderAlloc.setBuffer (value : BinderBuffer) : BinderAlloc :=
  { alloc with mem := Function.update alloc.mem buffer value }

def takeFree : BinderAlloc :=
  { alloc with freeBuffers := rbErase buffer alloc.freeBuffers }.setBuffer
    buffer { alloc.mem buffer with free := false, allowUserFree := false }

/-- Store the request in the buffer; charge an asynchronous one. -/
def fillBuffer : BinderAlloc :=
  { alloc.setBuffer buffer { alloc.mem buffer with
        dataSize := dataSize
        offsetsSize := offsetsSize
        asyncTransaction := isAsync
        extraBuffersSize := extraBuffersSize } with
    freeAsyncSpace :=
      if isAsync then alloc.freeAsyncSpace - (size + sizeofBinderBuffer)
      else alloc.freeAsyncSpace }

/-- `binder_alloc_new_buf_locked` after the buffer was split. -/
def claimBuffer : Option (BinderAlloc × Except Errno BufferPtr) :=
  match binderInsertAllocatedBufferLocked (takeFree alloc buffer) buffer with
  | none => none
  | some inserted =>
    some (fillBuffer inserted buffer dataSize offsetsSize extraBuffersSize size isAsync, .ok buffer)

/-- Put a new free buffer after `size` bytes of a buffer. -/
def addRemainder (buffer newBuffer : BufferPtr) (size : Nat) : BinderAlloc :=
  { alloc with buffers := listAdd newBuffer buffer alloc.buffers }.setBuffer newBuffer
    { zeroedBuffer with
      data := (alloc.mem buffer).data + size
      free := true }

/-- `binder_alloc_new_buf_locked` after the search. -/
def takeBuffer (alloc : BinderAlloc) (buffer : BufferPtr) (exact : Bool)
    (dataSize offsetsSize extraBuffersSize size : BitVec 32)
    (isAsync : Bool) : Option (BinderAlloc × Except Errno BufferPtr) :=
  let bufferSize := binderAllocBufferSize alloc buffer
  let data := (alloc.mem buffer).data
  let hasPageAddr := pageMask (data + bufferSize)
  let endPageAddr := min (pageAlign (data + size.toNat)) hasPageAddr
  let alloc :=
    { alloc with pages := alloc.pages.warnOn (exact && bufferSize != size.toNat) .sizeMismatch }
  match allocatePageRange env alloc (pageAlign data) endPageAddr with
  | none => none
  | some (alloc, some errno) => some (alloc, .error errno)
  | some (alloc, none) =>
    if bufferSize = size.toNat then
      claimBuffer alloc buffer dataSize offsetsSize extraBuffersSize size isAsync
    else
      match env.kzalloc with
      | none => some (freePageRange alloc (pageAlign data) endPageAddr, .error .enomem)
      | some newBuffer =>
        match binderInsertFreeBuffer (addRemainder alloc buffer newBuffer size.toNat) newBuffer with
        | none => none
        | some alloc => claimBuffer alloc buffer dataSize offsetsSize extraBuffersSize size isAsync

/-- `binder_alloc_new_buf_locked`. -/
def binderAllocNewBuf (alloc : BinderAlloc)
    (dataSize offsetsSize extraBuffersSize : BitVec 32) (isAsync : Bool) :
    Option (BinderAlloc × Except Errno BufferPtr) :=
  if !alloc.vma then some (alloc, .error .esrch)
  else
    let dataOffsetsSize := alignPtr dataSize + alignPtr offsetsSize
    if dataOffsetsSize < dataSize ∨ dataOffsetsSize < offsetsSize then some (alloc, .error .einval)
    else
      let size := dataOffsetsSize + alignPtr extraBuffersSize
      if size < dataOffsetsSize ∨ size < extraBuffersSize then some (alloc, .error .einval)
      else if isAsync ∧ alloc.freeAsyncSpace < size + sizeofBinderBuffer then
        some (alloc, .error .enospc)
      else
        -- pad 0-size buffers so they get assigned unique addresses
        let size := if size < sizeofPtr then sizeofPtr else size
        match bestFit alloc size.toNat alloc.freeBuffers none with
        | none => none
        | some (none, _) => some (alloc, .error .enospc)
        | some (some buffer, exact) =>
          takeBuffer env alloc buffer exact dataSize offsetsSize extraBuffersSize size isAsync

/-- `buffer_start_page`, from the buffer's data address. -/
def bufferStartPage : Nat := pageMask data

/-- `prev_buffer_end_page`, from the buffer's data address. -/
def prevBufferEndPage : Nat := pageMask (data - 1)

end

/--
Whether `binder_delete_free_buffer` gives up the first page of a buffer: it is
shared neither with `prev` nor with the next buffer.
-/
def pageToFree (prev data : Nat) (next : Option Nat) : Bool :=
  prevBufferEndPage prev != bufferStartPage data &&
    !(next.any fun address => bufferStartPage address == bufferStartPage data) &&
    data % pageSize != 0

/-- `binder_delete_free_buffer`. -/
def binderDeleteFreeBuffer : Option BinderAlloc :=
  match binderBufferPrev buffer alloc.buffers with
  | none => none
  | some prev =>
    if (alloc.mem prev).free then
      let data := (alloc.mem buffer).data
      let next := (binderBufferNext buffer alloc.buffers).map fun next => (alloc.mem next).data
      let freed :=
        if pageToFree (alloc.mem prev).data data next then
          freePageRange alloc (bufferStartPage data) (bufferStartPage data + pageSize)
        else alloc
      some { freed with buffers := alloc.buffers.erase buffer }
    else none

/-- Give a free buffer after `buffer` to it. -/
def mergeNext : Option BinderAlloc :=
  match binderBufferNext buffer alloc.buffers with
  | none => some alloc
  | some next =>
    if (alloc.mem next).free then
      binderDeleteFreeBuffer { alloc with freeBuffers := rbErase next alloc.freeBuffers } next
    else some alloc

/-- Give `buffer` to a free buffer before it. -/
def mergePrev : Option (BinderAlloc × BufferPtr) :=
  match binderBufferPrev buffer alloc.buffers with
  | none => some (alloc, buffer)
  | some prev =>
    if (alloc.mem prev).free then
      match binderDeleteFreeBuffer alloc buffer with
      | none => none
      | some alloc => some ({ alloc with freeBuffers := rbErase prev alloc.freeBuffers }, prev)
    else some (alloc, buffer)

/-- The size of a free, from the stored sizes. -/
def storedSize (buffer : BinderBuffer) : BitVec 32 :=
  alignPtr buffer.dataSize + alignPtr buffer.offsetsSize + alignPtr buffer.extraBuffersSize

/-- Give back charge and pages, and take the buffer out of its tree. -/
def releaseBuffer : BinderAlloc :=
  let value := alloc.mem buffer
  let credited :=
    { alloc with
      freeAsyncSpace :=
        if value.asyncTransaction then
          alloc.freeAsyncSpace + (storedSize value + sizeofBinderBuffer)
        else alloc.freeAsyncSpace }
  let unpopulated :=
    freePageRange credited (pageAlign value.data)
      (pageMask (value.data + binderAllocBufferSize alloc buffer))
  { unpopulated with
    allocatedBuffers := rbErase buffer alloc.allocatedBuffers }.setBuffer
    buffer { value with free := true }

/-- `binder_free_buf_locked`. -/
def binderAllocFreeBuf : Option BinderAlloc :=
  let value := alloc.mem buffer
  if value.free ∨ binderAllocBufferSize alloc buffer < (storedSize value).toNat ∨
      value.transaction ∨ value.data < alloc.buffer ∨
      alloc.buffer + alloc.bufferSize < value.data then
    none
  else
    match mergeNext (releaseBuffer alloc buffer) buffer with
    | none => none
    | some alloc =>
      match mergePrev alloc buffer with
      | none => none
      | some (alloc, merged) => binderInsertFreeBuffer alloc merged

end

/-- `binder_alloc_init`. -/
def binderAllocInit : BinderAlloc where
  vma := false
  buffer := 0
  bufferSize := 0
  buffers := []
  mem := fun _ => zeroedBuffer
  freeBuffers := .null
  allocatedBuffers := .null
  freeAsyncSpace := 0
  pages := ⟨fun _ => ⟨false, .zeroed⟩, 0, []⟩

/-- The kernel's answers while the area is mapped. -/
structure MmapEnv where
  vmArea : Option Nat
  pagesAllocated : Bool
  kzalloc : Option BufferPtr

/--
`binder_alloc_mmap_handler`. On ARMv7 `cache_is_vipt_aliasing()` is zero, so
no loop moves `vm_start`.
-/
def binderAllocMmapHandler (env : MmapEnv) (alloc : BinderAlloc)
    (vmStart vmEnd : Nat) : Option (BinderAlloc × Option Errno) :=
  if alloc.buffer ≠ 0 then some (alloc, some .ebusy)
  else
    match env.vmArea with
    | none => some (alloc, some .enomem)
    | some addr =>
      if env.pagesAllocated then
        let sized :=
          { alloc with
            buffer := addr
            bufferSize := vmEnd - vmStart
            pages := { alloc.pages with page := fun _ => ⟨false, .zeroed⟩ } }
        match env.kzalloc with
        | none => some ({ sized with buffer := 0 }, some .enomem)
        | some buffer =>
          let listed :=
            { sized with buffers := buffer :: sized.buffers }.setBuffer
              buffer { zeroedBuffer with data := addr, free := true }
          match binderInsertFreeBuffer listed buffer with
          | none => none
          | some inserted =>
            some ({ inserted with
                freeAsyncSpace := BitVec.ofNat 32 (inserted.bufferSize / 2)
                vma := true }, none)
      else some (alloc, some .enomem)

end EchoKernel.Binder
