import Fastpath.Lib.OrderedMap
import Fastpath.Model.Access
import Fastpath.Proofs.Codec

/-!
# A message is a map in the order of its calls

`m_payload` and `m_keys` are two containers for one thing: a map from
identifiers to types and values that remembers the order they came in. The keys
number the payload from the front, so an identifier is found where its field
was put. Every `add*` call keeps that, whichever of the overloads it is, because
a call whose key does not go in puts nothing into the payload either.

The one number that can be wrong is `size()`, which has 32 bits.
-/

namespace Fastpath

open Fastpath.Lib

/-! ## What is stored -/

/-- What a field holds, whatever class keeps it. -/
inductive Value where
  | bytes (value : Bytes)
  | time (seconds microseconds : Int64)
  | message (msg : Message)

def Field.value : Field → Value
  | .scalar _ _ data => .bytes data
  | .dateTime _ _ seconds microseconds => .time seconds microseconds
  | .smallData _ _ value | .largeData _ _ value => .bytes value
  | .message _ msg => .message msg

/-- Type and value under an identifier. -/
def Field.stored (field : Field) : CString × StorageType × Value :=
  (field.identifier, field.type, field.value)

theorem Field.stored_createData (identifier : CString) (type : StorageType) (value : Bytes) :
    (Field.createData identifier type value).stored = (identifier, type, .bytes value) := by
  rw [Field.createData]
  split <;> rfl

namespace MutableMessage

/-- The map from identifiers to types and values. -/
abbrev Contents := OrderedMap CString (StorageType × Value)

/-- What a call is to put in; nothing for `clear`. -/
def Call.entry : Call → Option (CString × StorageType × Value)
  | .addScalarField field value => some (field, value.type, .bytes value.raw)
  | .addStringField field value => some (field, .string, .bytes value.terminated)
  | .addDataField field value => some (field, .data, .bytes value)
  | .addMessageField field msg => some (field, .message, .message msg)
  | .addDateTimeField field seconds microseconds =>
      some (field, .dateTime, .time seconds.toInt64 microseconds.toInt64)
  | .addMicroseconds field value =>
      some (field, .dateTime, .time (value / 1000000) (value % 1000000))
  | .addTimePoint field sinceEpoch =>
      some (field, .dateTime, .time (sinceEpoch / 1000 / 1000000) (sinceEpoch / 1000 % 1000000))
  | .clear => none

/-- One call on the map, with the answer to expect. -/
def Call.apply (call : Call) (o : Contents) : Option Bool × Contents :=
  match call.entry with
  | some (identifier, value) =>
      (some (o.insert identifier value).1, (o.insert identifier value).2)
  | none => (none, .empty)

/-- The answers to expect of a sequence of calls, and the map after it. -/
def expected : List Call → Contents → List (Option Bool) × Contents
  | [], o => ([], o)
  | call :: calls, o =>
      ((call.apply o).1 :: (expected calls (call.apply o).2).1,
        (expected calls (call.apply o).2).2)

/-- The identifier has room in its array. -/
def Call.Fitting (call : Call) : Prop :=
  ∀ entry ∈ call.entry, entry.1.length < Field.identifierSize

end MutableMessage

open MutableMessage

/-! ## The two containers -/

/-- The payload is the map's entries, and the keys number it. -/
structure Message.Represents (m : Message) (o : Contents) : Prop where
  payload : m.payload.map Field.stored = o.entries
  keys : m.keys = o.keys.zipIdx

namespace Message.Represents

variable {m : Message} {o : Contents}

theorem find_eq (h : m.Represents o) (identifier : CString) :
    m.find identifier = o.keys.findIdx? (· = identifier) := by
  rw [Message.find, h.keys]
  exact find?_zipIdx o.keys identifier

theorem find_eq_none (h : m.Represents o) {identifier : CString} :
    m.find identifier = none ↔ identifier ∉ o.keys := by
  rw [h.find_eq, List.findIdx?_eq_none_iff]
  refine ⟨fun hall hmem => ?_, fun hnot k hk => decide_eq_false fun heq => hnot (heq ▸ hk)⟩
  exact of_decide_eq_false (hall identifier hmem) rfl

theorem length_payload (h : m.Represents o) : m.payload.length = o.entries.length := by
  rw [← h.payload, List.length_map]

theorem length_keys (h : m.Represents o) : m.keys.length = m.payload.length := by
  rw [h.keys, List.length_zipIdx, OrderedMap.keys, List.length_map, h.length_payload]

theorem lookup_eq (h : m.Represents o) (identifier : CString) :
    (m.lookup identifier).map (fun field => (field.type, field.value)) = o.lookup identifier := by
  rw [o.lookup_eq, Message.lookup, h.find_eq, ← h.payload]
  cases o.keys.findIdx? (· = identifier) with
  | none => rfl
  | some index =>
      rw [Option.bind_some, Option.bind_some, List.getElem?_map, Option.map_map]
      rfl

theorem empty (m : Message) (hpayload : m.payload = []) (hkeys : m.keys = []) :
    m.Represents .empty :=
  ⟨by rw [hpayload]; rfl, by rw [hkeys]; rfl⟩

/-- One `add*` call is one insertion, and one that is refused leaves both containers alone. -/
theorem add (h : m.Represents o) {e : Field} {identifier : CString} {value : StorageType × Value}
    (hstored : e.stored = (identifier, value))
    (hfits : identifier.length < Field.identifierSize) :
    ∃ m', (MutableMessage.add e).run m = (.ok (o.insert identifier value).1, m') ∧
      m'.Represents (o.insert identifier value).2 ∧
      ((o.insert identifier value).1 = false → m' = m) := by
  obtain rfl : e.identifier = identifier := congrArg Prod.fst hstored
  by_cases hmem : e.identifier ∈ o.keys
  · rw [OrderedMap.insert_old hmem]
    refine ⟨m, ?_, h, fun _ => rfl⟩
    obtain ⟨index, hfind⟩ := Option.ne_none_iff_exists'.mp (mt h.find_eq_none.mp (not_not.mpr hmem))
    rw [add_run, if_pos hfits, addField, Message.insertKey, hfind]
  · obtain ⟨hanswer, hentries⟩ := OrderedMap.insert_new hmem value
    have hrun := add_new hfits (h.find_eq_none.mpr hmem)
    rw [hanswer]
    refine ⟨_, hrun, ⟨?_, ?_⟩, fun hfalse => (by cases hfalse)⟩
    · rw [hentries, List.map_append, h.payload, List.map_singleton, hstored]
    · dsimp only
      rw [OrderedMap.keys_insert_new hmem, List.zipIdx_append, h.keys, h.length_payload,
        OrderedMap.keys, List.length_map]
      simp

/-- One call of any kind. -/
theorem call (h : m.Represents o) {call : Call} (hfits : call.Fitting) :
    ∃ m', call.run.run m = (.ok (call.apply o).1, m') ∧ m'.Represents (call.apply o).2 ∧
      ((call.apply o).1 = some false → m' = m) := by
  have hadd {e : Field} {identifier : CString} {value : StorageType × Value}
      (hstored : e.stored = (identifier, value))
      (hid : identifier.length < Field.identifierSize) :
      ∃ m', (some <$> MutableMessage.add e).run m =
          (.ok (some (o.insert identifier value).1), m') ∧
        m'.Represents (o.insert identifier value).2 ∧
        (some (o.insert identifier value).1 = some false → m' = m) := by
    obtain ⟨m', hrun, hrep, hsame⟩ := h.add hstored hid
    exact ⟨m', Exec.bind_ok hrun, hrep, fun hfalse => hsame (Option.some.inj hfalse)⟩
  cases call with
  | addScalarField field value => exact hadd rfl (hfits _ rfl)
  | addStringField field value => exact hadd (Field.stored_createData ..) (hfits _ rfl)
  | addDataField field value => exact hadd (Field.stored_createData ..) (hfits _ rfl)
  | addMessageField field msg => exact hadd rfl (hfits _ rfl)
  | addDateTimeField field seconds microseconds => exact hadd rfl (hfits _ rfl)
  | addMicroseconds field value => exact hadd rfl (hfits _ rfl)
  | addTimePoint field sinceEpoch => exact hadd rfl (hfits _ rfl)
  | clear => exact ⟨m.clear, rfl, .empty _ rfl rfl, fun hfalse => (by cases hfalse)⟩

/-- A sequence of calls. -/
theorem perform (h : m.Represents o) {calls : List Call} (hfits : ∀ call ∈ calls, call.Fitting) :
    ∃ m', (MutableMessage.perform calls).run m = (.ok (expected calls o).1, m') ∧
      m'.Represents (expected calls o).2 := by
  induction calls generalizing m o with
  | nil => exact ⟨m, rfl, h⟩
  | cons call calls ih =>
      obtain ⟨m₁, hrun, hrep, -⟩ := h.call (hfits call List.mem_cons_self)
      obtain ⟨m₂, hrun', hrep'⟩ := ih hrep fun c hc => hfits c (List.mem_cons_of_mem call hc)
      refine ⟨m₂, ?_, hrep'⟩
      rw [MutableMessage.perform, Exec.bind_ok hrun, Exec.bind_ok hrun']
      rfl

end Message.Represents

/-- Everything that is promised of the two containers. -/
structure Message.Ordered (m : Message) (o : Contents) : Prop where
  payload : m.payload.map Field.stored = o.entries
  keys : m.keys.length = m.payload.length
  lookup : ∀ identifier,
    (m.lookup identifier).map (fun field => (field.type, field.value)) = o.lookup identifier
  size : m.size = o.entries.length % 2 ^ 32
  rejected : ∀ (call : Call) (m' : Message), call.Fitting →
    call.run.run m = (.ok (some false), m') → m'.payload = m.payload ∧ m'.keys = m.keys

theorem Message.Represents.ordered {m : Message} {o : Contents} (h : m.Represents o) :
    m.Ordered o := by
  refine ⟨h.payload, h.length_keys, h.lookup_eq, ?_, fun call m' hfits hrun => ?_⟩
  · rw [Message.size, h.length_payload]
  · obtain ⟨m₁, hrun', -, hsame⟩ := h.call hfits
    rw [hrun'] at hrun
    obtain ⟨hanswer, rfl⟩ := Prod.mk.inj hrun
    rw [hsame (Except.ok.inj hanswer)]
    exact ⟨rfl, rfl⟩

/-- After any sequence of calls a message is the map the calls describe, in the order they were
accepted in, and each was answered as the map answers it. -/
theorem perform_ordered {calls : List Call} (hfits : ∀ call ∈ calls, call.Fitting) :
    ∃ m, (perform calls).run Message.new = (.ok (expected calls .empty).1, m) ∧
      m.Ordered (expected calls .empty).2 := by
  obtain ⟨m, hrun, hrep⟩ := (Message.Represents.empty Message.new rfl rfl).perform hfits
  exact ⟨m, hrun, hrep.ordered⟩

/-- The second `A` is refused whatever it is; after `clear` it is not. -/
theorem ordered_mixed :
    let calls : List Call :=
      [.addScalarField (.ofString "A") (.boolean true),
        .addStringField (.ofString "B") (.ofString "x"),
        .addDataField (.ofString "A") [1], .clear, .addDataField (.ofString "A") [1]]
    (∀ call ∈ calls, call.Fitting) ∧
      (expected calls .empty).1 = [some true, some true, some false, none, some true] ∧
      ∃ m, (perform calls).run Message.new = (.ok (expected calls .empty).1, m) ∧
        m.Ordered (expected calls .empty).2 := by
  intro calls
  have hfits : ∀ call ∈ calls, call.Fitting := by
    simp only [calls, List.forall_mem_cons]
    exact ⟨fun _ h => (Option.some.inj h) ▸ (by decide),
      fun _ h => (Option.some.inj h) ▸ (by decide),
      fun _ h => (Option.some.inj h) ▸ (by decide), fun _ h => (by cases h),
      fun _ h => (Option.some.inj h) ▸ (by decide), fun _ h => (by cases h)⟩
  exact ⟨hfits, rfl, perform_ordered hfits⟩

/-! ## More fields than `size()` can say -/

/-- As many calls, all under different identifiers. -/
def crowding (n : Nat) : List Call :=
  (List.range n).map fun i => .addScalarField (numbered i) (.boolean true)

theorem crowding_fits (n : Nat) : ∀ call ∈ crowding n, call.Fitting := by
  intro call hcall entry hentry
  obtain ⟨i, -, rfl⟩ := List.mem_map.mp hcall
  cases hentry
  show (digits 5 i).length < 256
  rw [digits_length]
  decide

theorem expected_append (calls more : List Call) (o : Contents) :
    expected (calls ++ more) o =
      ((expected calls o).1 ++ (expected more (expected calls o).2).1,
        (expected more (expected calls o).2).2) := by
  induction calls generalizing o with
  | nil => rfl
  | cons call calls ih => rw [List.cons_append, expected, ih, expected, List.cons_append]

theorem expected_crowding {n : Nat} (h : n ≤ 255 ^ 5) :
    (expected (crowding n) .empty).1 = List.replicate n (some true) ∧
      (expected (crowding n) .empty).2.keys = (List.range n).map numbered := by
  induction n with
  | zero => exact ⟨rfl, rfl⟩
  | succ n ih =>
      obtain ⟨hanswers, hkeys⟩ := ih (by omega)
      have hnew : numbered n ∉ (expected (crowding n) .empty).2.keys := by
        rw [hkeys]
        intro hmem
        obtain ⟨i, hi, hnum⟩ := List.mem_map.mp hmem
        have hlt := List.mem_range.mp hi
        have hsame := digits_inj (by omega) (by omega) (congrArg CString.bytes hnum)
        omega
      have hlast : crowding (n + 1) =
          crowding n ++ [.addScalarField (numbered n) (.boolean true)] := by
        rw [crowding, List.range_succ, List.map_append]
        rfl
      rw [hlast, expected_append, hanswers]
      refine ⟨?_, ?_⟩
      · rw [List.replicate_succ']
        exact congrArg (fun answer => List.replicate n (some true) ++ [some answer])
          (OrderedMap.insert_new hnew _).1
      · rw [List.range_succ, List.map_append, ← hkeys]
        exact OrderedMap.keys_insert_new hnew _

theorem size_crowding {n : Nat} (h : n ≤ 255 ^ 5) :
    ∃ m, (perform (crowding n)).run Message.new = (.ok (List.replicate n (some true)), m) ∧
      m.size = n % 2 ^ 32 := by
  obtain ⟨hanswers, hkeys⟩ := expected_crowding h
  obtain ⟨m, hrun, hrep⟩ :=
    (Message.Represents.empty Message.new rfl rfl).perform (crowding_fits n)
  refine ⟨m, hanswers ▸ hrun, ?_⟩
  have hlength := congrArg List.length hkeys
  rw [OrderedMap.keys, List.length_map, List.length_map, List.length_range] at hlength
  rw [hrep.ordered.size, hlength]

/-- `2 ^ 32` calls are all accepted, and `size()` is zero. -/
theorem crowding_not_counted :
    (∀ call ∈ crowding (2 ^ 32), call.Fitting) ∧
      ∃ m, (perform (crowding (2 ^ 32))).run Message.new =
          (.ok (List.replicate (2 ^ 32) (some true)), m) ∧
        m.size ≠ 2 ^ 32 := by
  obtain ⟨m, hrun, hsize⟩ := size_crowding (n := 2 ^ 32) (by norm_num)
  refine ⟨crowding_fits _, m, hrun, ?_⟩
  rw [hsize]
  norm_num

end Fastpath
