import IPchain.Applicability
import IPchain.Decoding

/-! Locators: what a transaction announces, and what the sender's balance holds after it. -/

namespace IPchain

open Lib

structure Announcement where
  ip : IPNetwork
  priority : Nat
  weight : Nat
  deriving DecidableEq

namespace Announcement

def pair (e : Announcement) : Nat × Nat := (e.priority, e.weight)

/-- The entry of an address, the last one where it is repeated. -/
def own (entries : List Announcement) (ip : IPNetwork) : Option (Nat × Nat) :=
  (entries.reverse.find? fun e => e.ip = ip).map pair

/-- No entry announces a zero, and every address has the priority and the weight that the
last entry of all has. -/
def Uniform (entries : List Announcement) : Prop :=
  ∀ e ∈ entries, e.priority ≠ 0 ∧ e.weight ≠ 0 ∧
    own entries e.ip = entries.getLast?.map pair

instance (entries : List Announcement) : Decidable (Uniform entries) :=
  inferInstanceAs (Decidable (∀ e ∈ entries, e.priority ≠ 0 ∧ e.weight ≠ 0 ∧
    own entries e.ip = entries.getLast?.map pair))

theorem own_eq_none {entries : List Announcement} {ip : IPNetwork}
    (absent : ip ∉ entries.map Announcement.ip) : own entries ip = none := by
  rw [own, Option.map_eq_none_iff, List.find?_eq_none]
  intro e member same
  apply absent
  rw [← of_decide_eq_true same]
  exact List.mem_map_of_mem (List.mem_reverse.mp member)

end Announcement

def Item.number : Item → Nat
  | .int n => n.toNat
  | .bytes b => bytesToNat b

def Item.isBytes : Item → Bool
  | .int _ => false
  | .bytes _ => true

section Announced

variable [Platform]

def announcedIp (asBytes : Bool) (f : Family) (item : Item) : Option IPAddress :=
  match asBytes, item with
  | true, .bytes b => (addressOfPacked f b).toOption
  | true, .int n => (addressOfPacked f (strOfInt n)).toOption
  | false, .int n => (addressOfInt f n).toOption
  | false, .bytes b => (Platform.parseAddress f b).map Subtype.val

def announcedEntry (asBytes : Bool) (afi ip priority weight : Item) : Option Announcement :=
  (announcedIp asBytes (familyOf afi.number) ip).map fun x =>
    ⟨IPNetwork.ofAddress x, priority.number, weight.number⟩

def announcedEntries (asBytes : Bool) : List Item → List Announcement
  | afi :: ip :: priority :: weight :: rest =>
      (announcedEntry asBytes afi ip priority weight).toList ++ announcedEntries asBytes rest
  | _ => []

/-- What the metadata given to the constructor announces. -/
def announced : List Item → List Announcement
  | [] => []
  | first :: rest => announcedEntries first.isBytes (first :: rest)

/-- The constructor made the transaction of this metadata. -/
def Transaction.Announces (tx : Transaction) (items : List Item) : Prop :=
  ∃ nonce category toAddr afi value time v r s,
    init nonce category toAddr afi value (.list items) time v r s =
      .ok { tx with cachedSender := none }

theorem metadataIp_announced {asBytes : Bool} {n : Nat} {item : Item} {stored : Bytes}
    (read : metadataIp asBytes n item = .ok stored) :
    ∃ x, announcedIp asBytes (familyOf n) item = some x ∧ x.family = familyOf n ∧
      stored = packed x := by
  have ofPacked {f : Family} {b : Bytes} {x : IPAddress} (done : addressOfPacked f b = .ok x) :
      x.family = f := by
    simp only [addressOfPacked] at done
    split at done <;> cases done
    rfl
  have ofInt {f : Family} {i : Int} {x : IPAddress} (done : addressOfInt f i = .ok x) :
      x.family = f := by
    simp only [addressOfInt] at done
    split at done <;> cases done
    rfl
  simp only [metadataIp] at read
  rcases asBytes with _ | _ <;> rcases item with i | b <;> simp only at read
  · obtain ⟨x, done, rfl⟩ := except_map_eq_ok.mp read
    exact ⟨x, by simp only [announcedIp, done, Except.toOption], ofInt done, rfl⟩
  · split at read
    · rename_i x parsed
      cases read
      exact ⟨x.val, by simp only [announcedIp, parsed, Option.map_some], x.property, rfl⟩
    · cases read
  · obtain ⟨x, done, rfl⟩ := except_map_eq_ok.mp read
    exact ⟨x, by simp only [announcedIp, done, Except.toOption], ofPacked done, rfl⟩
  · obtain ⟨x, done, rfl⟩ := except_map_eq_ok.mp read
    exact ⟨x, by simp only [announcedIp, done, Except.toOption], ofPacked done, rfl⟩

omit [Platform] in
theorem metadataAfi_number {asBytes : Bool} {item : Item} {n : Nat} {stored : Bytes}
    (read : metadataAfi asBytes item = .ok (n, stored)) : n = item.number := by
  obtain ⟨afi, value, checked⟩ := except_bind_eq_ok.mp read
  have same : afi.1 = item.number := by
    rcases asBytes with _ | _ <;> rcases item with i | b <;>
      simp only [storedAfi, reduceCtorEq] at value
    · obtain ⟨c, -, rfl⟩ := except_map_eq_ok.mp value
      rfl
    · obtain ⟨c, decoded, rfl⟩ := except_map_eq_ok.mp value
      simp only [bytesToInt] at decoded
      split at decoded <;> cases decoded
      rfl
  split at checked
  · cases checked
  · cases checked
    exact same

omit [Platform] in
theorem metadataByte_number {asBytes : Bool} {text : String} {item : Item} {stored : Bytes}
    (read : metadataByte asBytes text item = .ok stored) :
    stored = intToBigEndian item.number := by
  rcases asBytes with _ | _ <;> rcases item with i | b <;>
    simp only [metadataByte, invalid, reduceCtorEq] at read
  · split at read <;> cases read
    rfl
  · obtain ⟨n, decoded, read⟩ := except_bind_eq_ok.mp read
    split at read
    · cases read
    · cases read
      simp only [bytesToInt] at decoded
      split at decoded <;> cases decoded
      rfl

structure Stores (e : Announcement) (afi ip priority weight : Bytes) : Prop where
  named : ∃ n, bytesToInt afi = .ok n ∧ ipaddrToNetaddr n ip = .ok e.ip
  priority : priority = intToBigEndian e.priority
  weight : weight = intToBigEndian e.weight

theorem locatorEntry_stores {asBytes : Bool} {afi ip priority weight : Item} {entry : List Bytes}
    (read : locatorEntry asBytes afi ip priority weight = .ok entry) :
    ∃ e a b c d, announcedEntry asBytes afi ip priority weight = some e ∧ entry = [a, b, c, d] ∧
      Stores e a b c d := by
  obtain ⟨⟨n, stored⟩, known, body⟩ := except_bind_eq_ok.mp read
  obtain ⟨address, located, body⟩ := except_bind_eq_ok.mp (orInvalid_eq_ok.mp body)
  obtain ⟨p, first, body⟩ := except_bind_eq_ok.mp body
  obtain ⟨w, second, result⟩ := except_bind_eq_ok.mp body
  cases result
  have chosen := orInvalid_eq_ok.mp known
  have number := metadataAfi_number chosen
  obtain ⟨x, names, family, rfl⟩ := metadataIp_announced located
  obtain ⟨valid, reads⟩ := metadataAfi_ok chosen
  refine ⟨⟨IPNetwork.ofAddress x, priority.number, weight.number⟩, stored, packed x, p, w, ?_, rfl,
    ⟨n, reads, ?_⟩, metadataByte_number first, metadataByte_number second⟩
  · rw [announcedEntry, ← number, names]
    rfl
  · have again := addressOfPacked_packed x
    rw [family] at again
    rcases valid with rfl | rfl
    · change addressOfPacked .v4 (packed x) = .ok x at again
      simp [ipaddrToNetaddr, again]
    · change addressOfPacked .v6 (packed x) = .ok x at again
      simp [ipaddrToNetaddr, again]

omit [Platform] in
theorem bytesToInt_intToBigEndian (n : Nat) :
    (n ≠ 0 → bytesToInt (intToBigEndian n) = .ok n) ∧
      (n = 0 → ∀ m, bytesToInt (intToBigEndian n) ≠ .ok m) := by
  constructor
  · intro positive
    have nonempty : intToBigEndian n ≠ [] := by
      intro blank
      have zero := bytesToNat_intToBigEndian n
      rw [blank] at zero
      exact positive zero.symm
    rw [bytesToInt, if_neg nonempty, bytesToNat_intToBigEndian]
  · rintro rfl m read
    cases read

namespace Announcement

def final (l : Option Nat × Option Nat) (entries : List Announcement) : Option Nat × Option Nat :=
  (entries.getLast?.map fun e => (some e.priority, some e.weight)).getD l

omit [Platform] in
theorem final_cons (l : Option Nat × Option Nat) (e : Announcement) (rest : List Announcement) :
    final l (e :: rest) = final (some e.priority, some e.weight) rest := by
  rw [final, final, List.getLast?_cons]
  cases rest.getLast? <;> rfl

end Announcement

open Announcement

omit [Platform] in
theorem locators_entry {e : Announcement} {a b c d : Bytes} (stores : Stores e a b c d)
    (ips : List IPNetwork) (l : Option Nat × Option Nat) (rest : List Bytes)
    (dict : AList fun _ : IPNetwork => Option Nat × Option Nat) :
    Balance.locators ips l (a :: b :: c :: d :: rest) = .ok dict ↔
      (e.priority ≠ 0 ∧ e.weight ≠ 0) ∧
        Balance.locators (e.ip :: ips) (some e.priority, some e.weight) rest = .ok dict := by
  obtain ⟨⟨n, known, named⟩, rfl, rfl⟩ := stores
  rw [Balance.locators, known]
  simp only [bind, Except.bind, named]
  by_cases priority : e.priority = 0
  · simp [priority, show bytesToInt (intToBigEndian 0) = .error _ from rfl]
  · rw [(bytesToInt_intToBigEndian _).1 priority]
    by_cases weight : e.weight = 0
    · simp [weight, show bytesToInt (intToBigEndian 0) = .error _ from rfl]
    · rw [(bytesToInt_intToBigEndian _).1 weight]
      simp [priority, weight]

theorem locators_announced {asBytes : Bool} {items : List Item} {stored : List Bytes}
    (read : locatorEntries asBytes items = .ok stored) (ips : List IPNetwork)
    (l : Option Nat × Option Nat) (dict : AList fun _ : IPNetwork => Option Nat × Option Nat) :
    Balance.locators ips l stored = .ok dict ↔
      (∀ e ∈ announcedEntries asBytes items, e.priority ≠ 0 ∧ e.weight ≠ 0) ∧
        dict = (((announcedEntries asBytes items).map Announcement.ip).reverse ++ ips).foldr
          (fun ip dict => dict.insert ip (final l (announcedEntries asBytes items))) ∅ := by
  fun_induction locatorEntries asBytes items generalizing stored ips l with
  | case1 =>
      cases read
      simp [Balance.locators, announcedEntries, final, eq_comm]
  | case2 afi ip priority weight rest ih =>
      obtain ⟨entry, one, more⟩ := except_bind_eq_ok.mp read
      obtain ⟨entries, others, result⟩ := except_bind_eq_ok.mp more
      cases result
      obtain ⟨e, a, b, c, d, announces, rfl, stores⟩ := locatorEntry_stores one
      have split : announcedEntries asBytes (afi :: ip :: priority :: weight :: rest) =
          e :: announcedEntries asBytes rest := by
        rw [announcedEntries, announces]
        rfl
      rw [split]
      simp only [List.cons_append, List.nil_append]
      rw [locators_entry stores, ih others, List.forall_mem_cons, final_cons, List.map_cons,
        List.reverse_cons, List.append_assoc, List.singleton_append]
      exact and_assoc.symm
  | case3 => cases read

omit [Platform] in
theorem lookup_insert_all (ips : List IPNetwork) (l : Option Nat × Option Nat) (ip : IPNetwork) :
    (ips.foldr (fun ip (dict : AList fun _ : IPNetwork => Option Nat × Option Nat) =>
      dict.insert ip l) ∅).lookup ip = if ip ∈ ips then some l else none := by
  induction ips with
  | nil => rfl
  | cons head tail ih =>
      rw [List.foldr_cons]
      by_cases same : ip = head
      · subst same
        simp [AList.lookup_insert]
      · rw [AList.lookup_insert_ne same, ih]
        simp [same]

namespace Announcement

/-- A dictionary that has the announced addresses, each with its own entry. -/
def Held (entries : List Announcement)
    (dict : AList fun _ : IPNetwork => Option Nat × Option Nat) : Prop :=
  ∀ ip, dict.lookup ip = (own entries ip).map fun pair => (some pair.1, some pair.2)

omit [Platform] in
theorem own_of_mem {entries : List Announcement} {e : Announcement} (member : e ∈ entries) :
    ∃ pair, own entries e.ip = some pair := by
  rw [own]
  cases found : entries.reverse.find? fun d => d.ip = e.ip with
  | none =>
      have none := List.find?_eq_none.mp found e (List.mem_reverse.mpr member)
      simp at none
  | some d => exact ⟨d.pair, rfl⟩

omit [Platform] in
theorem held_final_iff (entries : List Announcement) (l : Option Nat × Option Nat) :
    Held entries ((entries.map Announcement.ip).reverse.foldr
      (fun ip dict => dict.insert ip (final l entries)) ∅) ↔
      ∀ e ∈ entries, own entries e.ip = entries.getLast?.map pair := by
  simp only [Held, lookup_insert_all, List.mem_reverse]
  have last {e : Announcement} (member : e ∈ entries) :
      ∃ d, entries.getLast? = some d ∧ final l entries = (some d.priority, some d.weight) := by
    have nonempty : entries ≠ [] := List.ne_nil_of_mem member
    exact ⟨_, List.getLast?_eq_some_getLast nonempty, by
      rw [final, List.getLast?_eq_some_getLast nonempty]
      rfl⟩
  constructor
  · intro held e member
    obtain ⟨d, ends, value⟩ := last member
    obtain ⟨p, owns⟩ := own_of_mem member
    have here := held e.ip
    rw [if_pos (List.mem_map_of_mem member), value, owns] at here
    simp only [Option.map_some, Option.some.injEq, Prod.mk.injEq] at here
    rw [owns, ends, Option.map_some]
    exact congrArg some (Prod.ext here.1.symm here.2.symm)
  · intro agree ip
    by_cases present : ip ∈ entries.map Announcement.ip
    · obtain ⟨e, member, rfl⟩ := List.mem_map.mp present
      obtain ⟨d, ends, value⟩ := last member
      rw [if_pos present, agree e member, ends, value]
      rfl
    · rw [if_neg present, own_eq_none present]
      rfl

end Announcement

end Announced

section Application

open Announcement

variable {S : Type} [IPSet S] [Platform]

omit [IPSet S] in
theorem setLocator_announced {asBytes : Bool} {items : List Item} {stored : List Bytes}
    (read : locatorEntries asBytes items = .ok stored) (b : Balance S) :
    (∃ b', b.setLocator stored = .ok b' ∧ b'.mapServer = ∅ ∧
      Held (announcedEntries asBytes items) b'.locator) ↔
        Uniform (announcedEntries asBytes items) := by
  have uniform : Uniform (announcedEntries asBytes items) ↔
      (∀ e ∈ announcedEntries asBytes items, e.priority ≠ 0 ∧ e.weight ≠ 0) ∧
        ∀ e ∈ announcedEntries asBytes items, own (announcedEntries asBytes items) e.ip =
          (announcedEntries asBytes items).getLast?.map pair := by
    rw [Uniform, ← forall₂_and]
    exact forall₂_congr fun e member => and_assoc.symm
  rw [uniform, ← held_final_iff _ (none, none)]
  constructor
  · rintro ⟨b', set, -, held⟩
    obtain ⟨dict, done, result⟩ := except_bind_eq_ok.mp set
    cases result
    obtain ⟨nonzero, rfl⟩ := (locators_announced read [] (none, none) dict).mp done
    rw [List.append_nil] at held
    exact ⟨nonzero, held⟩
  · rintro ⟨nonzero, held⟩
    have done := (locators_announced read [] (none, none) _).mpr ⟨nonzero, rfl⟩
    rw [List.append_nil] at done
    exact ⟨_, except_bind_eq_ok.mpr ⟨_, done, rfl⟩, rfl, held⟩

omit [IPSet S] in
theorem Transaction.Announces.stored {tx : Transaction} {items : List Item}
    (announces : tx.Announces items) (category : tx.category = 3) :
    ∃ asBytes stored, tx.metadata = .list stored ∧ locatorEntries asBytes items = .ok stored ∧
      announced items = announcedEntries asBytes items := by
  obtain ⟨nonce, category', toAddr, afi, value, time, v, r, s, built⟩ := announces
  obtain ⟨metadata, checked, built⟩ := except_bind_eq_ok.mp built
  obtain ⟨recipient, -, built⟩ := except_bind_eq_ok.mp built
  split at built
  · cases built
  · obtain ⟨network, -, built⟩ := except_bind_eq_ok.mp built
    have same := Except.ok.inj built
    simp only [Transaction.mk.injEq] at same
    rw [same.2.1, category] at checked
    rw [← same.2.2.2.2.2.1]
    simp only [checkMetadata, metadataList] at checked
    split at checked
    · split at checked
      · cases checked
      · obtain ⟨stored, done, rfl⟩ := except_map_eq_ok.mp checked
        exact ⟨true, stored, rfl, done, rfl⟩
      · obtain ⟨stored, done, rfl⟩ := except_map_eq_ok.mp checked
        exact ⟨false, stored, rfl, done, rfl⟩
    · cases checked

/-- A locator that was validated leaves what it announced, and no map server, if and only if
it announces no zero and gives every address what the last entry has. -/
theorem locators_stored_iff {s s₁ : State S} {tx : Transaction} {items : List Item}
    (announces : tx.Announces items) (category : tx.category = 3) {sender : Address}
    (signed : tx.sender = .ok sender) (validated : validateTransaction tx s = .ok true s₁)
    (cached : Cached) :
    (∃ c s', applyTransaction tx cached s = .ok (true, c) s' ∧
      (s'.getBalance sender).1.mapServer = ∅ ∧
        Held (announced items) (s'.getBalance sender).1.locator) ↔ Uniform (announced items) := by
  obtain ⟨asBytes, stored, listed, read, same⟩ := announces.stored category
  rw [same, ← setLocator_announced read (s.account sender).balance]
  have simulates := simulates_applyTransaction (S := S) tx cached
  obtain ⟨⟨a, V, valid⟩, -⟩ :=
    validateTransaction_eq_ok.mp ((simulates_validateTransaction tx).ok validated)
  have perform_eq (L : Ledger S) : perform tx cached L =
      (setMapping tx Balance.setLocator >>= fun _ => pure cached) L := by
    simp only [perform, category]
    rfl
  have elements : tx.metadata.elements = stored := by rw [listed, Metadata.elements]
  constructor
  · rintro ⟨c, s', applied, noServer, held⟩
    obtain ⟨-, -, done⟩ := applyTransaction_eq_ok.mp (simulates.ok applied)
    rw [perform_eq] at done
    obtain ⟨_, M, set, result⟩ := bind_eq_ok.mp done
    cases result
    obtain ⟨a', b, signed', set, written⟩ := setMapping_eq_ok.mp set
    rw [signed] at signed'
    cases signed'
    rw [State.getBalance_fst, written, Function.update_self] at noServer held
    rw [elements] at set
    exact ⟨b, set, noServer, held⟩
  · rintro ⟨b, set, noServer, held⟩
    rw [← elements] at set
    have mapped := setMapping_eq_ok.mpr ⟨sender, b, signed, set, rfl⟩
    have done := (perform_eq s.account).trans (bind_eq_ok.mpr ⟨(), _, mapped, rfl⟩)
    have whole : applyTransaction tx cached s.account = .ok (true, cached) _ :=
      applyTransaction_eq_ok.mpr ⟨⟨a, V, valid⟩, rfl, done⟩
    obtain ⟨s', applied, after⟩ := simulates.exists_ok whole
    refine ⟨cached, s', applied, ?_⟩
    rw [State.getBalance_fst, after, Function.update_self]
    exact ⟨noServer, held⟩

end Application

namespace Sample

open Announcement

/-- The metadata of two locators, with the priorities 20 and 45 and the weights 230 and 50. -/
def twoLocators : List Item :=
  [.int 1, .int 0x03030303, .int 20, .int 230, .int 1, .int 0x04040404, .int 45, .int 50]

def oneLocator : List Item := [.int 1, .int 0x03030303, .int 20, .int 230]

def announcing (stored : List Bytes) : Transaction :=
  { move 3 alice bob 0 (net 0 9) with toAddr := none, metadata := .list stored }

def twoStored : List Bytes :=
  [[1], [3, 3, 3, 3], [20], [230], [1], [4, 4, 4, 4], [45], [50]]

def oneStored : List Bytes := [[1], [3, 3, 3, 3], [20], [230]]

theorem two_announced : (announcing twoStored).Announces twoLocators :=
  ⟨0, 3, .bytes [], 1, .bytes (valueOf (net 0 9)), 0, 27, 1, 1, rfl⟩

theorem one_announced : (announcing oneStored).Announces oneLocator :=
  ⟨0, 3, .bytes [], 1, .bytes (valueOf (net 0 9)), 0, 27, 1, 1, rfl⟩

theorem one_locator_stored : ∃ (s s₁ s' : State AddressRanges) (c : Cached),
    validateTransaction (announcing oneStored) s = .ok true s₁ ∧
      applyTransaction (announcing oneStored) ∅ s = .ok (true, c) s' ∧
      (s'.getBalance alice).1.mapServer = ∅ ∧
        Held (announced oneLocator) (s'.getBalance alice).1.locator := by
  obtain ⟨⟨s, rows⟩, built, passes⟩ := passes_iff.mp (show
    Passes (stateFromGenesisDeclaration (S := AddressRanges) genesis) (fun g =>
      RunPasses (validateTransaction (announcing oneStored) g.1) fun b _ => b) = true
    by decide)
  obtain ⟨b, s₁, validated, rfl⟩ := runPasses_iff.mp passes
  obtain ⟨c, s', applied, held⟩ :=
    (locators_stored_iff one_announced rfl rfl validated ∅).mpr (by decide)
  exact ⟨s, s₁, s', c, validated, applied, held⟩

def third : IPNetwork := IPNetwork.ofAddress ⟨.v4, 0x03030303, by decide⟩

/-- The two entries share one list: 3.3.3.3 gets the priority and the weight of 4.4.4.4. -/
theorem two_locators_shared : ∃ (s s' : State AddressRanges) (rows c : Cached),
    stateFromGenesisDeclaration genesis = .ok (s, rows) ∧
      (announcing twoStored).Announces twoLocators ∧
      applyTransaction (announcing twoStored) ∅ s = .ok (true, c) s' ∧
      own (announced twoLocators) third = some (20, 230) ∧
      (s'.getBalance alice).1.locator.lookup third = some (some 45, some 50) ∧
      ¬ Held (announced twoLocators) (s'.getBalance alice).1.locator := by
  obtain ⟨s, rows, c, s', built, applied, -, shared⟩ := applied_of_passes (announcing twoStored)
    (fun _ => true)
    (fun s => decide ((s.getBalance alice).1.locator.lookup third = some (some 45, some 50)))
    (by decide)
  have announces : own (announced twoLocators) third = some (20, 230) := by decide
  have stored := of_decide_eq_true shared
  refine ⟨s, s', rows, c, built, two_announced, applied, announces, stored, ?_⟩
  intro held
  have expected := held third
  rw [announces, stored] at expected
  exact absurd expected (by decide)

end Sample

end IPchain
