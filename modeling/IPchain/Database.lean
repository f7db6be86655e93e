import IPchain.Encoding
import Mathlib.Data.List.AList

/-! The databases of db.py, and what they do for data that is put under its own hash. -/

namespace IPchain

open Lib Platform

class Database (D : Type) where
  get : D → Bytes → Except PyExc Bytes
  put : D → Bytes → Bytes → Except PyExc D

structure EphemDB where
  db : AList fun _ : Bytes => Bytes

instance : Database EphemDB where
  get d key :=
    match d.db.lookup key with
    | some value => .ok value
    | none => .error ⟨.keyError, ""⟩
  put d key value := .ok ⟨d.db.insert key value⟩

/-- A deleted key is an overlay entry without a value. -/
structure OverlayDB (D : Type) where
  db : D
  overlay : AList fun _ : Bytes => Option Bytes

instance {D : Type} [Database D] : Database (OverlayDB D) where
  get d key :=
    match d.overlay.lookup key with
    | some (some value) => .ok value
    | some none => .error ⟨.keyError, ""⟩
    | none => Database.get d.db key
  put d key value := .ok { d with overlay := d.overlay.insert key (some value) }

def zpad (x : Bytes) (l : Nat) : Bytes := List.replicate (l - x.length) 0 ++ x

def add1 (b : Bytes) : Bytes := zpad (intToBigEndian (bytesToNat b + 1)) 4

structure RefcountDB (D : Type) where
  db : D

/-- Every entry starts with four bytes that count how often it was put. The second put of a
key stands in the `try` block, the first one in the `except KeyError` clause. -/
instance {D : Type} [Database D] : Database (RefcountDB D) where
  get d key := (Database.get d.db key).map (List.drop 4)
  put d key value :=
    let again : Except PyExc D := do
      let existing ← Database.get d.db key
      if existing.drop 4 = value then Database.put d.db key (add1 (existing.take 4) ++ value)
      else .error ⟨.assertionError, ""⟩
    match again with
    | .ok db => .ok ⟨db⟩
    | .error e =>
        if e.isInstance .keyError then
          RefcountDB.mk <$> Database.put d.db key ([0, 0, 0, 1] ++ value)
        else .error e

namespace Database

variable {D : Type} [Database D]

def lookup (d : D) (key : Bytes) : Option Bytes := (get d key).toOption

theorem lookup_eq_some {d : D} {key value : Bytes} :
    lookup d key = some value ↔ get d key = .ok value := by
  rw [lookup]
  cases get d key with
  | ok v => simp [Except.toOption]
  | error e => simp [Except.toOption]

end Database

class Dictionary (D : Type) [Database D] : Prop where
  missing : ∀ {d : D} {key : Bytes} {e : PyExc}, Database.get d key = .error e →
    e.isInstance .keyError
  put_run : ∀ (d : D) (key value : Bytes), ∃ d', Database.put d key value = .ok d' ∧
    ∀ k, Database.lookup d' k = if k = key then some value else Database.lookup d k

instance : Dictionary EphemDB where
  missing {d key e} absent := by
    simp only [Database.get] at absent
    split at absent
    · cases absent
    · cases absent
      rfl
  put_run d key value := by
    refine ⟨_, rfl, ?_⟩
    intro k
    simp only [Database.lookup, Database.get]
    by_cases same : k = key
    · subst same
      rw [AList.lookup_insert, if_pos rfl]
      rfl
    · rw [AList.lookup_insert_ne same, if_neg same]

namespace OverlayDB

variable {D : Type} [Database D]

theorem db_put {d d' : OverlayDB D} {key value : Bytes}
    (run : Database.put d key value = .ok d') : d'.db = d.db := by
  cases run
  rfl

theorem lookup_put (d : OverlayDB D) (key value : Bytes) :
    ∃ d', Database.put d key value = .ok d' ∧
      ∀ k, Database.lookup d' k = if k = key then some value else Database.lookup d k := by
  refine ⟨_, rfl, ?_⟩
  intro k
  simp only [Database.lookup, Database.get]
  by_cases same : k = key
  · subst same
    rw [AList.lookup_insert, if_pos rfl]
    rfl
  · rw [AList.lookup_insert_ne same, if_neg same]

instance [Dictionary D] : Dictionary (OverlayDB D) where
  missing {d key e} absent := by
    simp only [Database.get] at absent
    split at absent
    · cases absent
    · cases absent
      rfl
    · exact Dictionary.missing absent
  put_run := lookup_put

end OverlayDB

/-- A database that can be trusted with data under its own hash, as long as the data of `U`
has different hashes: `Holds U puts d` says that `d` has what was put, and `Room` what it needs
to know of the puts. -/
class Archive (D : Type) [Platform] [Database D] where
  Room : List Bytes → Prop
  Holds : Set Bytes → List Bytes → D → Prop
  room_of_cons : ∀ {v : Bytes} {puts : List Bytes}, Room (v :: puts) → Room puts
  get_run : ∀ {U : Set Bytes} {puts : List Bytes} {d : D} {v : Bytes}, Holds U puts d →
    v ∈ puts → v ∈ U → Database.get d (sha3 v) = .ok v
  put_run : ∀ {U : Set Bytes} {puts : List Bytes} {d : D} {v : Bytes}, Set.InjOn sha3 U →
    Holds U puts d → v ∈ U → Room (v :: puts) →
    ∃ d', Database.put d (sha3 v) v = .ok d' ∧ Holds U (v :: puts) d'

section Archive

variable [Platform] {D : Type} [Database D] [Dictionary D]

instance : Archive D where
  Room _ := True
  Holds U puts d := ∀ v ∈ puts, v ∈ U → Database.lookup d (sha3 v) = some v
  room_of_cons _ := trivial
  get_run holds put member := Database.lookup_eq_some.mp (holds _ put member)
  put_run {U puts d v} apart holds member _ := by
    obtain ⟨d', run, reads⟩ := Dictionary.put_run d (sha3 v) v
    refine ⟨d', run, ?_⟩
    intro w put other
    rw [reads]
    split
    · rename_i same
      rw [apart other member same]
    · rename_i differs
      rcases List.mem_cons.mp put with rfl | earlier
      · exact absurd rfl differs
      · exact holds w earlier other

def RefcountDB.entry (puts : List Bytes) (v : Bytes) : Option Bytes :=
  if v ∈ puts then some (bigEndian 4 (puts.count v) ++ v) else none

end Archive

theorem zpad_intToBigEndian {width n : Nat} (small : n < 256 ^ width) :
    zpad (intToBigEndian n) width = bigEndian width n := by
  have digits : (intToBigEndian n).length ≤ width := by
    rw [intToBigEndian, List.length_map, List.length_reverse]
    exact (Nat.digits_length_le_iff (by decide) n).mpr small
  have length : (zpad (intToBigEndian n) width).length = width := by
    rw [zpad, List.length_append, List.length_replicate]
    omega
  have value : bytesToNat (zpad (intToBigEndian n) width) = n := by
    rw [zpad, bytesToNat_padded, bytesToNat_intToBigEndian]
  have back := bigEndian_bytesToNat (zpad (intToBigEndian n) width)
  rw [length, value] at back
  exact back.symm

theorem add1_bigEndian {n : Nat} (small : n + 1 < 2 ^ 32) :
    add1 (bigEndian 4 n) = bigEndian 4 (n + 1) := by
  rw [add1, bytesToNat_bigEndian (show n < 256 ^ 4 by omega)]
  exact zpad_intToBigEndian (show n + 1 < 256 ^ 4 by omega)

namespace RefcountDB

variable {D : Type} [Database D] [Dictionary D]

theorem put_absent {d : RefcountDB D} {key : Bytes} (absent : Database.lookup d.db key = none)
    (value : Bytes) : ∃ d', Database.put d key value = .ok d' ∧
      ∀ k, Database.lookup d'.db k =
        if k = key then some ([0, 0, 0, 1] ++ value) else Database.lookup d.db k := by
  obtain ⟨db, run, reads⟩ := Dictionary.put_run d.db key ([0, 0, 0, 1] ++ value)
  cases got : Database.get d.db key with
  | ok existing =>
      rw [Database.lookup_eq_some.mpr got] at absent
      cases absent
  | error e =>
      have missing := Dictionary.missing got
      refine ⟨⟨db⟩, ?_, reads⟩
      simp only [Database.put, got]
      change (if e.isInstance .keyError then _ else _) = _
      rw [if_pos missing, run]
      rfl

theorem put_present {d : RefcountDB D} {key counter value : Bytes} (four : counter.length = 4)
    (present : Database.lookup d.db key = some (counter ++ value)) :
    ∃ d', Database.put d key value = .ok d' ∧
      ∀ k, Database.lookup d'.db k =
        if k = key then some (add1 counter ++ value) else Database.lookup d.db k := by
  obtain ⟨db, run, reads⟩ := Dictionary.put_run d.db key (add1 counter ++ value)
  refine ⟨⟨db⟩, ?_, reads⟩
  simp only [Database.put, Database.lookup_eq_some.mp present]
  change (match (if (counter ++ value).drop 4 = value then
    Database.put d.db key (add1 ((counter ++ value).take 4) ++ value) else _) with
      | .ok db => _
      | .error e => _) = _
  rw [List.drop_left' four, List.take_left' four, if_pos rfl, run]

instance [Platform] : Archive (RefcountDB D) where
  Room puts := ∀ v, puts.count v < 2 ^ 32
  Holds U puts d := ∀ v ∈ U, Database.lookup d.db (sha3 v) = entry puts v
  room_of_cons room w := Nat.lt_of_le_of_lt (List.count_le_count_cons) (room w)
  get_run {U puts d v} holds put member := by
    have found := holds v member
    rw [entry, if_pos put, Database.lookup_eq_some] at found
    change (Database.get d.db (sha3 v)).map (List.drop 4) = _
    rw [found]
    exact congrArg Except.ok (List.drop_left' (bigEndian_length 4 _))
  put_run {U puts d v} apart holds member room := by
    have counted : puts.count v + 1 < 2 ^ 32 := by
      have bound := room v
      rwa [List.count_cons_self] at bound
    have found := holds v member
    -- any other data of `U` keeps the entry it has
    have others {d' : RefcountDB D} {data : Bytes} (here : some data = entry (v :: puts) v)
        (reads : ∀ k, Database.lookup d'.db k =
          if k = sha3 v then some data else Database.lookup d.db k) :
        ∀ w ∈ U, Database.lookup d'.db (sha3 w) = entry (v :: puts) w := by
      intro w other
      rw [reads]
      split
      · rename_i same
        rw [apart other member same, here]
      · rename_i differs
        have apart : w ≠ v := by
          rintro rfl
          exact differs rfl
        rw [holds w other, entry, entry, List.count_cons_of_ne (Ne.symm apart)]
        simp [apart]
    by_cases put : v ∈ puts
    · rw [entry, if_pos put] at found
      obtain ⟨d', run, reads⟩ := put_present (bigEndian_length 4 _) found
      refine ⟨d', run, others ?_ reads⟩
      rw [entry, if_pos List.mem_cons_self, List.count_cons_self, add1_bigEndian counted]
    · rw [entry, if_neg put] at found
      obtain ⟨d', run, reads⟩ := put_absent found v
      refine ⟨d', run, others ?_ reads⟩
      rw [entry, if_pos List.mem_cons_self, List.count_cons_self, List.count_eq_zero.mpr put]
      rfl

end RefcountDB

end IPchain
