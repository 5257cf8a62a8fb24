import Fastpath.Proofs.Arena
import Fastpath.Proofs.Codec
import Fastpath.Proofs.Copies
import Fastpath.Proofs.Made

/-!
# The books of a message

Which blocks of the arena somebody will give back, and how many others are live
that nobody will. The block of a field is in the payload from the moment it is
accepted, or goes back at once. Two kinds of block are on nobody's list: what a
`LargeDataField` took for its value, and what a field was placed in whose
constructor threw.

While none is lost, slabs are as large as the first, and another one is linked
only where each of them holds a field.
-/

namespace Fastpath

open Fastpath.Lib

/-! ## The books of an arena -/

/-- `held` are the live blocks that somebody will give back, and `lost` is how many others there
are. -/
structure Arena.Books (a : Arena) (bound : Nat) (held : List Block) (lost : Nat) : Prop where
  holds : ∃ others : List Block, others.length = lost ∧ a.Holds (held ++ others)
  first : a.initialSize = 8192
  small : lost = 0 → a.Uniform ∧ a.slabs.length ≤ bound

namespace Arena

variable {a : Arena} {bound lost : Nat} {held : List Block}

theorem initialSize_allocate (malloc : Malloc) (a : Arena) (size : Nat) :
    (a.allocate malloc.address size).2.initialSize = a.initialSize := by
  rw [Arena.allocate]
  split <;> rfl

theorem initialSize_deallocate (a : Arena) (ptr size : Nat) :
    (a.deallocate ptr size).initialSize = a.initialSize := by
  rw [Arena.deallocate]
  split <;> rfl

theorem Books.mono {bound' : Nat} (h : a.Books bound held lost) (hle : bound ≤ bound') :
    a.Books bound' held lost :=
  ⟨h.holds, h.first, fun hnone => ⟨(h.small hnone).1, (h.small hnone).2.trans hle⟩⟩

theorem Books.perm {held' : List Block} (h : a.Books bound held lost) (hperm : held.Perm held') :
    a.Books bound held' lost := by
  obtain ⟨others, hlen, hholds⟩ := h.holds
  exact ⟨⟨others, hlen, hholds.perm (hperm.append_right others)⟩, h.first, h.small⟩

/-- Nobody will give the block back. -/
theorem Books.lose {b : Block} (h : a.Books bound (b :: held) lost) :
    a.Books bound held (lost + 1) := by
  obtain ⟨others, hlen, hholds⟩ := h.holds
  refine ⟨⟨b :: others, ?_, hholds.perm List.perm_middle.symm⟩, h.first, fun hnone => ?_⟩
  · rw [List.length_cons, hlen]
  · cases hnone

theorem Books.allocate (h : a.Books bound held lost) (malloc : Malloc) {size : Nat}
    (hpos : 0 < size) (hsize : size ≤ 8192) :
    (a.allocate malloc.address size).2.Books (max bound (held.length + 1))
      (⟨(a.allocate malloc.address size).1, size⟩ :: held) lost := by
  obtain ⟨others, hlen, hholds⟩ := h.holds
  refine ⟨⟨others, hlen, hholds.allocate malloc hpos⟩,
    (initialSize_allocate malloc a size).trans h.first, fun hnone => ?_⟩
  obtain ⟨huniform, hslabs⟩ := h.small hnone
  have hheld : a.Holds held := by
    rw [hnone] at hlen
    rw [List.length_eq_zero_iff.mp hlen, List.append_nil] at hholds
    exact hholds
  obtain ⟨huniform', hslabs'⟩ := hheld.length_allocate malloc huniform (h.first ▸ hsize)
  exact ⟨huniform', by omega⟩

theorem Books.deallocate {b : Block} (h : a.Books bound (b :: held) lost) :
    (a.deallocate b.ptr b.size).Books bound held lost := by
  obtain ⟨others, hlen, hholds⟩ := h.holds
  refine ⟨⟨others, hlen, hholds.deallocate⟩,
    (initialSize_deallocate a b.ptr b.size).trans h.first, fun hnone => ?_⟩
  obtain ⟨huniform, hslabs⟩ := h.small hnone
  obtain ⟨huniform', hslabs'⟩ := length_deallocate huniform b.ptr b.size
  exact ⟨huniform', hslabs'.le.trans hslabs⟩

/-- Block after block is given back. -/
theorem Books.giveBack (h : a.Books bound held lost) :
    (held.foldl (fun a b => a.deallocate b.ptr b.size) a).Books bound [] lost := by
  induction held generalizing a with
  | nil => exact h
  | cons b held ih => exact ih h.deallocate

/-- With nothing held, the arena is clean exactly if nothing is lost. -/
theorem Books.clean_iff (h : a.Books bound [] lost) : a.Clean ↔ lost = 0 := by
  obtain ⟨others, hlen, hholds⟩ := h.holds
  rw [hholds.clean_iff, List.nil_append, ← hlen, List.length_eq_zero_iff]

theorem books_new (malloc : Malloc) : (Arena.new malloc.address 8192).Books 1 [] 0 := by
  refine ⟨⟨[], rfl, holds_new malloc 8192⟩, rfl, fun _ => ⟨fun s hs => ?_, Nat.le_refl _⟩⟩
  rw [List.mem_singleton.mp hs]
  rfl

/-- A block taken for a value is lost at once. -/
theorem books_of_taken {others : List Block} {b : Block} (hlen : others.length = lost)
    (hholds : a.Holds (b :: (held ++ others))) (hfirst : a.initialSize = 8192) :
    a.Books bound held (lost + 1) := by
  refine ⟨⟨b :: others, ?_, hholds.perm List.perm_middle.symm⟩, hfirst, fun hnone => ?_⟩
  · rw [List.length_cons, hlen]
  · cases hnone

end Arena

/-! ## What is taken for a field -/

/-- How many blocks a field takes for its value. -/
def Field.valueBlocks : Field → Nat
  | .largeData .. => 1
  | .scalar .. | .dateTime .. | .smallData .. | .message .. => 0

/-- A block is taken exactly for a value that is not small. -/
theorem Field.Made.small_iff {e : Field} (h : e.Made) :
    e.valueBlocks = 0 ↔ e.entry.small = true := by
  cases e with
  | smallData identifier type value => exact iff_of_true rfl (decide_eq_true h.2)
  | largeData identifier type value =>
      exact iff_of_false Nat.one_ne_zero
        (Bool.eq_false_iff.mp (decide_eq_false (Nat.not_le.mpr h.2)))
  | _ => exact iff_of_true rfl rfl

theorem Field.createData_made (identifier : CString) {type : StorageType} (value : Bytes)
    (htype : type = .string ∨ type = .data) : (Field.createData identifier type value).Made := by
  rw [Field.createData]
  split
  · next hsmall => exact ⟨htype, hsmall⟩
  · next hlarge => exact ⟨htype, Nat.lt_of_not_le hlarge⟩

theorem MutableMessage.Call.field_made (c : MutableMessage.Call) : ∀ e ∈ c.field, e.Made := by
  cases c with
  | addScalarField field value =>
      rintro _ ⟨⟩
      cases value <;> refine ⟨?_, ?_, ?_, ?_⟩ <;> exact fun h => by cases h
  | addStringField field value =>
      rintro _ ⟨⟩
      exact Field.createData_made _ _ (.inl rfl)
  | addDataField field value =>
      rintro _ ⟨⟩
      exact Field.createData_made _ _ (.inr rfl)
  | clear => exact fun e he => absurd he (Option.not_mem_none e)
  | _ =>
      rintro _ ⟨⟩
      trivial

/-! ## The books of a message -/

/-- The books of a message of `count` fields that has had `peak` fields at most, while the blocks
in `made` are those of a field that is being made. -/
structure Memory.Books (count peak : Nat) (made : List Block) (lost : Nat) (m : Memory) : Prop where
  aligned : m.blocks.length = count
  arena : m.arena.Books (max peak count + 1) (made ++ m.blocks) lost

def Object.Books (peak : Nat) (made : List Block) (lost : Nat) (o : Object) : Prop :=
  o.memory.Books o.msg.payload.length peak made lost

namespace Memory

variable (layout : Layout) (malloc : Malloc) {count peak lost : Nat} {made : List Block}
  {E : Fault → Memory → Prop}

theorem allocateField_triple (cls : FieldClass) :
    Exec.Triple (Books count peak [] lost) (allocateField layout malloc cls)
      (fun block => Books count peak [block] lost) E := by
  intro m h
  refine .inl ⟨_, _, rfl, h.aligned, ?_⟩
  have hbooks := h.arena.allocate malloc (Nat.succ_pos (layout.size cls + 7)) (layout.fits cls)
  have hroom : m.blocks.length + 1 ≤ max peak count + 1 := by
    have := h.aligned
    omega
  rw [List.nil_append, Nat.max_eq_left hroom] at hbooks
  exact hbooks

theorem copyInto_triple (array : FixedArray) (length : Nat) :
    Exec.Triple (Books count peak made lost) (copyInto array length)
      (fun _ => Books count peak made lost)
      fun fault m => fault = .overrun ∧ Books count peak made lost m := by
  refine .bind (Q := fun _ => Books count peak made lost)
    (.modify fun m h => ⟨h.aligned, h.arena⟩) fun _ => ?_
  split
  · exact .pure fun _ h => h
  · exact .throw fun _ h => ⟨rfl, h⟩

/-- Whether or not the first block is large enough, one is left that is nobody's. -/
theorem fillStorage_triple {allocation : Nat} (hpos : 0 < allocation) (length : Nat) :
    Exec.Triple (Books count peak made lost) (fillStorage malloc allocation length)
      (fun _ => Books count peak made (lost + 1)) E := by
  intro m h
  obtain ⟨others, hlen, hholds⟩ := h.arena.holds
  have hfirst := h.arena.first
  have htaken := hholds.allocate malloc (hpos.trans_le (le_allocateStorage allocation))
  rw [fillStorage, Exec.bind_ok rfl]
  dsimp only
  split
  · next hmore =>
      have hmax : 0 < max length (allocateStorage allocation * 2) :=
        (Nat.zero_lt_of_lt hmore).trans_le (Nat.le_max_left _ _)
      have hagain := htaken.deallocate.allocate malloc (hmax.trans_le (le_allocateStorage _))
      refine .inl ⟨(), _, rfl, h.aligned, Arena.books_of_taken hlen hagain ?_⟩
      rw [Arena.initialSize_allocate, Arena.initialSize_deallocate, Arena.initialSize_allocate]
      exact hfirst
  · refine .inl ⟨(), _, rfl, h.aligned, Arena.books_of_taken hlen htaken ?_⟩
    rw [Arena.initialSize_allocate]
    exact hfirst

/-- A constructor called by `add*` loses what the field takes for its value. -/
theorem constructField_triple {e : Field} (hmade : e.Made) :
    Exec.Triple (Books count peak made lost) (constructField malloc e)
      (fun _ => Books count peak made (lost + e.valueBlocks))
      fun fault m => fault = .overrun ∧ Books count peak made lost m := by
  refine (copyInto_triple _ _).bind fun _ => ?_
  cases e with
  | scalar identifier type data => exact copyInto_triple _ _
  | smallData identifier type value => exact copyInto_triple _ _
  | largeData identifier type value =>
      refine fillStorage_triple malloc ?_ _
      split
      · decide
      · exact Nat.zero_lt_of_lt hmade.2
  | dateTime identifier dataLength seconds microseconds => exact .pure fun _ h => h
  | message identifier msg => exact .pure fun _ h => h

end Memory

namespace MutableMessage

theorem addField_payload (e : Field) (m : Message) :
    (addField e m).1.payload = if (addField e m).2 then m.payload ++ [e] else m.payload := by
  rw [addField, Message.insertKey]
  cases m.find e.identifier with
  | none => rfl
  | some index => rfl

/-- All that `removeField` can do. -/
theorem removeField_cases (field : Option CString) (freed : Nat) (m : Message) :
    (removeField field freed).run m = (.ok false, m) ∨
      (∃ msg : Message, (removeField field freed).run m = (.ok true, msg) ∧
        freed < m.payload.length ∧ msg.payload = m.payload.eraseIdx freed) ∨
      ∃ msg, (removeField field freed).run m = (.error .outOfBounds, msg) := by
  rw [removeField]
  cases field with
  | none => exact .inl rfl
  | some identifier =>
      dsimp only
      cases m.find identifier with
      | none => exact .inl rfl
      | some index =>
          dsimp only
          split
          · next hfreed => exact .inr (.inl ⟨_, rfl, hfreed, rfl⟩)
          · exact .inr (.inr ⟨_, rfl⟩)

end MutableMessage

namespace Object

variable {peak lost lost' : Nat} {made : List Block}

theorem books_new (malloc : Malloc) : (Object.new malloc).Books 0 [] 0 :=
  ⟨rfl, Arena.books_new malloc⟩

/-- The fields a message has had count towards the peak. -/
theorem Books.peak_le {o : Object} {peak' : Nat} (h : o.Books peak made lost) (hle : peak ≤ peak') :
    o.Books peak' made lost :=
  ⟨h.aligned, h.arena.mono (by omega)⟩

/-- Nobody will give back the block of a field whose constructor has thrown. -/
theorem Books.lose {o : Object} {block : Block} (h : o.Books peak [block] lost) :
    o.Books peak [] (lost + 1) :=
  ⟨h.aligned, h.arena.lose⟩

/-- The field goes to the end of the payload, and its block with it. -/
theorem Books.accept {o : Object} {block : Block} (h : o.Books peak [block] lost) {msg : Message}
    {e : Field} (hmsg : msg.payload = o.msg.payload ++ [e]) :
    Books peak [] lost ⟨msg, { o.memory with blocks := o.memory.blocks ++ [block] }⟩ := by
  have hlength : msg.payload.length = o.msg.payload.length + 1 := by
    rw [hmsg, List.length_append, List.length_singleton]
  refine ⟨?_, (h.arena.perm (List.perm_append_singleton block o.memory.blocks).symm).mono ?_⟩
  · rw [hlength, ← h.aligned]
    exact List.length_append
  · rw [hlength]
    omega

/-- The field is destroyed, and its block goes back. -/
theorem Books.giveBack {o : Object} {block : Block} (h : o.Books peak [block] lost) {msg : Message}
    (hmsg : msg.payload.length = o.msg.payload.length) :
    Books peak [] lost
      ⟨msg, { o.memory with arena := o.memory.arena.deallocate block.ptr block.size }⟩ := by
  rw [Books, hmsg]
  exact ⟨h.aligned, h.arena.deallocate⟩

/-- A field is taken out, and its block goes back. -/
theorem Books.erase {o : Object} {freed : Nat} (h : o.Books peak [] lost)
    (hblock : freed < o.memory.blocks.length) (hfreed : freed < o.msg.payload.length)
    {msg : Message} (hmsg : msg.payload = o.msg.payload.eraseIdx freed) :
    Books (max peak o.msg.payload.length) [] lost
      ⟨msg, { o.memory with
        arena := o.memory.arena.deallocate o.memory.blocks[freed].ptr o.memory.blocks[freed].size
        blocks := o.memory.blocks.eraseIdx freed }⟩ := by
  have hlength : msg.payload.length = o.msg.payload.length - 1 := by
    rw [hmsg, List.length_eraseIdx_of_lt hfreed]
  have harena := (h.arena.perm (List.getElem_cons_eraseIdx_perm hblock).symm).deallocate
  refine ⟨?_, harena.mono ?_⟩
  · rw [hlength, ← h.aligned]
    exact List.length_eraseIdx_of_lt hblock
  · omega

/-- All fields are destroyed, and their blocks go back. -/
theorem Books.clear {o : Object} (h : o.Books peak [] lost) :
    o.clear.Books (max peak o.msg.payload.length) [] lost := by
  refine ⟨rfl, h.arena.giveBack.mono ?_⟩
  omega

/-- Behind `clear` the arena is clean exactly if nothing is lost. -/
theorem Books.clean_iff {o : Object} (h : o.Books peak [] lost) :
    o.clear.memory.arena.Clean ↔ lost = 0 :=
  h.clear.arena.clean_iff

/-- A step in memory leaves the message alone. -/
theorem onMemory_triple {α : Type} {x : Exec Fault Memory α} {made' : α → List Block}
    {S : Fault → Prop}
    (h : ∀ count, Exec.Triple (Memory.Books count peak made lost) x
      (fun a => Memory.Books count peak (made' a) lost')
      fun fault m => S fault ∧ m.Books count peak made lost) :
    Exec.Triple (Books peak made lost) (onMemory x) (fun a => Books peak (made' a) lost')
      fun fault o => S fault ∧ o.Books peak made lost := by
  intro o ho
  obtain ⟨a, m, hrun, hm⟩ | ⟨fault, m, hrun, hstop, hm⟩ := h o.msg.payload.length o.memory ho
  · exact .inl ⟨a, _, onMemory_ok hrun, hm⟩
  · exact .inr ⟨fault, _, onMemory_error hrun, hstop, hm⟩

section Calls

variable (layout : Layout) (malloc : Malloc)

/-- An `add*` call throws nothing. The field stays or its block goes back, but what was taken for
its value is lost. -/
theorem add_triple {e : Field} (hmade : e.Made) :
    Exec.Triple (Books peak [] lost) (add layout malloc e)
      (fun _ => Books peak [] (lost + e.valueBlocks)) fun fault _ => fault = .overrun := by
  have hplace : Exec.Triple (Books peak [] lost)
      (onMemory (Memory.allocateField layout malloc e.fieldClass))
      (fun block => Books peak [block] lost) fun fault _ => fault = .overrun :=
    (onMemory_triple (S := fun fault => fault = .overrun) fun count =>
      Memory.allocateField_triple layout malloc e.fieldClass).mono (fun _ h => h) (fun _ _ h => h)
      fun _ _ h => h.1
  have hmake (block : Block) : Exec.Triple (Books peak [block] lost)
      (onMemory (Memory.constructField malloc e))
      (fun _ => Books peak [block] (lost + e.valueBlocks)) fun fault _ => fault = .overrun :=
    (onMemory_triple fun count => Memory.constructField_triple malloc hmade).mono (fun _ h => h)
      (fun _ _ h => h) fun _ _ h => h.1
  refine hplace.bind fun block => (hmake block).bind fun _ => ?_
  intro o h
  have hpayload := MutableMessage.addField_payload e o.msg
  rw [Exec.bind_ok (Exec.get_run o)]
  cases hadd : MutableMessage.addField e o.msg with
  | mk msg accepted =>
      rw [hadd] at hpayload
      cases accepted with
      | true => exact .inl ⟨true, _, rfl, h.accept hpayload⟩
      | false => exact .inl ⟨false, _, rfl, h.giveBack (congrArg List.length hpayload)⟩

/-- `removeField` throws nothing and loses nothing. -/
theorem removeField_books {o : Object} (h : o.Books peak [] lost) (field : Option CString)
    (freed : Nat) :
    (∃ a o', (removeField field freed).run o = (.ok a, o') ∧
      o'.Books (max peak o.msg.payload.length) [] lost ∧ o'.memory.copies = o.memory.copies) ∨
      ∃ o', (removeField field freed).run o = (.error .outOfBounds, o') := by
  rw [removeField, Exec.bind_ok (Exec.get_run o)]
  obtain hrun | ⟨msg, hrun, hfreed, hmsg⟩ | ⟨msg, hrun⟩ :=
    MutableMessage.removeField_cases field freed o.msg
  · rw [hrun]
    exact .inl ⟨false, _, rfl, h.peak_le (Nat.le_max_left _ _), rfl⟩
  · have hblock : freed < o.memory.blocks.length := by rwa [h.aligned]
    rw [hrun]
    dsimp only
    rw [List.getElem?_eq_getElem hblock]
    exact .inl ⟨true, _, rfl, h.erase hblock hfreed hmsg, rfl⟩
  · rw [hrun]
    exact .inr ⟨_, rfl⟩

end Calls

end Object

/-! ## Decoding -/

namespace Reading

/-- The books while `m` is being decoded. -/
structure Books (m : Message) (peak : Nat) (made : List Block) (lost : Nat) (r : Reading) :
    Prop where
  msg : r.object.msg = m
  books : r.object.Books peak made lost

/-- A decoder that throws has lost a block. It may also have read out of bounds. -/
def Wasted (peak : Nat) (fault : Fault) (r : Reading) : Prop :=
  fault ≠ .outOfBounds → ∃ lost, r.object.Books peak [] (lost + 1)

variable {m : Message} {peak lost lost' : Nat} {made : List Block} {α : Type}

theorem onBuffer_triple (x : Exec Fault ByteStorage α) :
    Exec.Triple (Books m peak made lost) (onBuffer x) (fun _ => Books m peak made lost)
      fun _ => Books m peak made lost :=
  .zoom_frame x fun _ _ h => ⟨h.msg, h.books⟩

theorem advance_triple {E : Fault → Reading → Prop} (n : Nat) :
    Exec.Triple (Books m peak made lost) (onBuffer (Exec.modify (ByteStorage.advanceRead n)))
      (fun _ => Books m peak made lost) E :=
  fun _ h => .inl ⟨(), _, rfl, h.msg, h.books⟩

theorem onMemory_triple {x : Exec Fault Memory α} {made' : α → List Block} {S : Fault → Prop}
    (h : ∀ count, Exec.Triple (Memory.Books count peak made lost) x
      (fun a => Memory.Books count peak (made' a) lost')
      fun fault memory => S fault ∧ memory.Books count peak made lost) :
    Exec.Triple (Books m peak made lost) (onMemory x) (fun a => Books m peak (made' a) lost')
      fun _ => Books m peak made lost := by
  intro r hr
  obtain ⟨a, memory, hrun, hm⟩ | ⟨fault, memory, hrun, -, hm⟩ :=
    h r.object.msg.payload.length r.object.memory hr.books
  · exact .inl ⟨a, _, onMemory_ok hrun, hr.msg, hm⟩
  · exact .inr ⟨fault, _, onMemory_error hrun, hr.msg, hm⟩

theorem copyInto_triple (array : FixedArray) (length : Nat) :
    Exec.Triple (Books m peak made lost) (onMemory (Memory.copyInto array length))
      (fun _ => Books m peak made lost) fun _ => Books m peak made lost :=
  onMemory_triple fun _ => Memory.copyInto_triple array length

/-- The message inside a field has an arena of its own. -/
theorem onFresh_triple (malloc : Malloc) (x : Exec Fault Reading Bool) :
    Exec.Triple (Books m peak made lost) (onFresh malloc x) (fun _ => Books m peak made lost)
      fun _ => Books m peak made lost := by
  intro r hr
  rw [onFresh]
  dsimp only
  split
  · exact .inl ⟨_, _, rfl, hr.msg, hr.books.aligned, hr.books.arena⟩
  · exact .inr ⟨_, _, rfl, hr.msg, hr.books.aligned, hr.books.arena⟩

theorem readFieldHeader_triple :
    Exec.Triple (Books m peak made lost) readFieldHeader (fun _ => Books m peak made lost)
      fun _ => Books m peak made lost := by
  refine (onBuffer_triple _).bind fun buffer => ?_
  split
  · refine (onBuffer_triple _).bind fun type => (onBuffer_triple _).bind fun identifierLength =>
      (onBuffer_triple _).bind fun dataLength => (onBuffer_triple _).bind fun buffer => ?_
    split
    · refine (onBuffer_triple _).bind fun identifier => (copyInto_triple _ _).bind fun _ =>
        (onBuffer_triple _).bind fun _ => (onBuffer_triple _).bind fun buffer => ?_
      split
      · exact .pure fun _ h => h
      · exact .throw fun _ h => h
    · exact .throw fun _ h => h
  · exact .throw fun _ h => h

section Fields

variable (layout : Layout) (malloc : Malloc)

/-- The block is taken before the constructor runs, and lost if that throws. -/
theorem place_triple {cls : FieldClass} {f : Block → Exec Fault Reading (Field × Block)}
    (hf : ∀ block, Exec.Triple (Books m peak [block] lost) (f block)
      (fun made => Books m peak [made.2] (lost + made.1.valueBlocks))
      fun _ => Books m peak [block] lost) :
    Exec.Triple (Books m peak [] lost)
      (onMemory (Memory.allocateField layout malloc cls) >>= f)
      (fun made => Books m peak [made.2] (lost + made.1.valueBlocks)) (Wasted peak) := by
  intro r hr
  obtain ⟨block, memory, hrun, hm⟩ | ⟨fault, memory, hrun, hnone⟩ :=
    Memory.allocateField_triple layout malloc cls (E := fun _ _ => False) r.object.memory hr.books
  · rw [Exec.bind_ok (onMemory_ok hrun)]
    exact (hf block).mono (fun _ h => h) (fun _ _ h => h) (fun _ _ h _ => ⟨lost, h.books.lose⟩) _
      ⟨hr.msg, hm⟩
  · exact hnone.elim

theorem createScalarField_triple :
    Exec.Triple (Books m peak [] lost) (createScalarField layout malloc)
      (fun made => Books m peak [made.2] (lost + made.1.valueBlocks)) (Wasted peak) := by
  refine place_triple layout malloc fun block => ?_
  exact readFieldHeader_triple.bind fun header => (onBuffer_triple _).bind fun data =>
    (copyInto_triple _ _).bind fun _ => (advance_triple _).bind fun _ => .pure fun _ h => h

theorem createDataField_triple (size : Nat) :
    Exec.Triple (Books m peak [] lost) (createDataField layout malloc size)
      (fun made => Books m peak [made.2] (lost + made.1.valueBlocks)) (Wasted peak) := by
  refine place_triple layout malloc fun block => ?_
  refine readFieldHeader_triple.bind fun header => (onBuffer_triple _).bind fun value => ?_
  split
  · exact (copyInto_triple _ _).bind fun _ => (advance_triple _).bind fun _ => .pure fun _ h => h
  · refine (onMemory_triple (S := fun _ => True) fun count =>
      Memory.fillStorage_triple malloc (by decide) _).bind fun _ => ?_
    exact (advance_triple _).bind fun _ => .pure fun _ h => h

theorem createDateTimeField_triple :
    Exec.Triple (Books m peak [] lost) (createDateTimeField layout malloc)
      (fun made => Books m peak [made.2] (lost + made.1.valueBlocks)) (Wasted peak) := by
  refine place_triple layout malloc fun block => ?_
  exact readFieldHeader_triple.bind fun header => (onBuffer_triple _).bind fun seconds =>
    (onBuffer_triple _).bind fun microseconds => .pure fun _ h => h

theorem createMessageField_triple (body : Exec Fault Reading Bool) :
    Exec.Triple (Books m peak [] lost) (createMessageField layout malloc body)
      (fun made => Books m peak [made.2] (lost + made.1.valueBlocks)) (Wasted peak) := by
  refine place_triple layout malloc fun block => ?_
  exact readFieldHeader_triple.bind fun header => (onFresh_triple malloc body).bind fun msg =>
    .pure fun _ h => h

theorem decodeField_triple (body : Exec Fault Reading Bool) :
    Exec.Triple (Books m peak [] lost) (decodeField layout malloc body)
      (fun made => Books m peak [made.2] (lost + made.1.valueBlocks)) (Wasted peak) := by
  have hpeek : Exec.Triple (Books m peak [] lost) (onBuffer peekFieldHeader)
      (fun _ => Books m peak [] lost) (Wasted peak) := by
    intro r hr
    cases hrun : peekFieldHeader.run r.buffer with
    | mk answer b =>
        cases answer with
        | ok header => exact .inl ⟨header, _, Exec.zoom_ok hrun, hr.msg, hr.books⟩
        | error e =>
            refine .inr ⟨e, _, Exec.zoom_error hrun, fun hne => ?_⟩
            exact absurd (peekFieldHeader_outOfBounds _ _ _ hrun) hne
  refine hpeek.bind fun header => ?_
  obtain ⟨type, identifierLength, dataSize⟩ := header
  cases type with
  | string => exact createDataField_triple layout malloc dataSize
  | data => exact createDataField_triple layout malloc dataSize
  | dateTime => exact createDateTimeField_triple layout malloc
  | message => exact createMessageField_triple layout malloc body
  | _ => exact createScalarField_triple layout malloc

/-- In the field loop: the fields decoded so far stay, and what was taken for their values is
lost. -/
def Loop (payload : List Field) (peak lost : Nat) (r : Reading) : Prop :=
  ∃ fields : List Field, r.object.msg.payload = payload ++ fields ∧
    r.object.Books peak [] (lost + (fields.map Field.valueBlocks).sum)

theorem decodeFields_triple (payload : List Field) (fuel count : Nat) :
    Exec.Triple (Loop payload peak lost) (decodeFields layout malloc fuel count)
      (fun _ => Loop payload peak lost) (Wasted peak) := by
  induction fuel generalizing count with
  | zero =>
      cases count with
      | zero => exact .pure fun _ h => h
      | succ count => exact .throw fun _ _ hne => absurd rfl hne
  | succ fuel ih =>
      cases count with
      | zero => exact .pure fun _ h => h
      | succ count =>
          have hfield : Exec.Triple (Loop payload peak lost)
              (decodeField layout malloc (decodeBody (decodeFields layout malloc fuel)))
              (fun made r => Loop payload peak lost { r with object := push made r.object })
              (Wasted peak) := by
            intro r h
            obtain ⟨fields, hpayload, hbooks⟩ := h
            refine (decodeField_triple layout malloc _).mono (fun _ h => h) ?_ (fun _ _ h => h) r
              ⟨rfl, hbooks⟩
            intro made r' hmade
            refine ⟨fields ++ [made.1], ?_, ?_⟩
            · show (r'.object.msg.pushDecoded made.1).payload = payload ++ (fields ++ [made.1])
              rw [Message.pushDecoded_payload, hmade.msg, hpayload, List.append_assoc]
            · rw [List.map_append, List.sum_append, List.map_singleton, List.sum_singleton,
                ← Nat.add_assoc]
              exact hmade.books.accept (Message.pushDecoded_payload _ _)
          refine hfield.bind fun made => Exec.Triple.bind (Q := fun _ => Loop payload peak lost) ?_
            fun _ => ih count
          exact fun r h => .inl ⟨(), _, rfl, h⟩

end Fields

end Reading

end Fastpath
