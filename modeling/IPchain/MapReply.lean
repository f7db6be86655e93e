import IPchain.Genesis
import IPchain.Lib.Bits

/-! The replies to queries for an EID, which are written bit by bit. -/

namespace IPchain

open Lib

/-- `BitArray('uint:length=value')`, which does not take numbers that do not fit. -/
def uint (length value : Nat) : Except PyExc (List Bool) :=
  if value < 2 ^ length then .ok (bits length value) else .error ⟨.valueError, ""⟩

def toOctets (bitstream : List Bool) : Except PyExc (List UInt8) :=
  match octets bitstream with
  | none => .error ⟨.valueError, ""⟩
  | some data => .ok data

def getBitstreamForAfiAddress : Option IPNetwork → Except PyExc (List Bool)
  | none => .ok (List.replicate 16 false)
  | some address =>
      match address.family with
      | .v4 => joined [uint 16 1, uint 32 address.value]
      | .v6 => joined [uint 16 2, uint 128 address.value]

structure LocatorRecord where
  priority : Nat := 0
  weight : Nat := 0
  mpriority : Nat := 0
  mweight : Nat := 0
  unusedflags : Nat := 0
  lpR : Nat := 0
  locator : Option IPNetwork := none
  deriving DecidableEq

def LocatorRecord.toBitstream (record : LocatorRecord) : Except PyExc (List Bool) :=
  joined [
    uint 8 record.priority,
    uint 8 record.weight,
    uint 8 record.mpriority,
    uint 8 record.mweight,
    uint 13 record.unusedflags,
    uint 3 record.lpR,
    getBitstreamForAfiAddress record.locator]

def actNoAction : Nat := 0

structure MapReplyRecord where
  ttl : Nat := 24 * 60
  action : Nat := actNoAction
  authoritative : Bool := false
  mapVersion : Nat := 0
  eidPrefix : Option IPNetwork := none
  locatorRecords : List LocatorRecord := []
  deriving DecidableEq

namespace MapReplyRecord

def maskLength (record : MapReplyRecord) : Except PyExc (List Bool) :=
  match record.eidPrefix with
  | none => .error ⟨.attributeError, "'NoneType' object has no attribute 'prefixlen'"⟩
  | some eidPrefix => uint 8 eidPrefix.prefixlen

def locatorBits (record : LocatorRecord) : Except PyExc (List Bool) :=
  match record.toBitstream with
  | .error _ => .error ⟨.exception, "Bad locator in MapReplyRecord"⟩
  | .ok bitstream => .ok bitstream

def toBitstream (record : MapReplyRecord) : Except PyExc (List Bool) :=
  joined ([
    uint 32 record.ttl,
    uint 8 record.locatorRecords.length,
    record.maskLength,
    uint 3 record.action,
    .ok [record.authoritative],
    .ok (List.replicate (12 + 4) false),
    uint 12 record.mapVersion,
    getBitstreamForAfiAddress record.eidPrefix] ++ record.locatorRecords.map locatorBits)

end MapReplyRecord

def serverBits (key : IPNetwork) : Except PyExc (List Bool) :=
  let afi := match key.family with
    | .v4 => 1
    | .v6 => 2
  joined [uint 16 afi, if afi = 1 then uint 32 key.value else uint 128 key.value]

inductive Info where
  | mapServers (info : List IPNetwork)
  | mapReplyRecord (record : MapReplyRecord)
  deriving DecidableEq

namespace Info

def toBitstream : Info → Except PyExc (List Bool)
  | mapServers info => joined (uint 8 info.length :: info.map serverBits)
  | mapReplyRecord record => record.toBitstream

def flag : Info → Nat
  | mapServers _ => 0
  | mapReplyRecord _ => 1

end Info

structure Response where
  nonce : Nat
  info : Info
  deriving DecidableEq

namespace Response

def toBitstream (response : Response) : Except PyExc (List Bool) :=
  joined [uint 64 response.nonce, uint 8 response.info.flag, response.info.toBitstream]

def toBytes (response : Response) : Except PyExc (List UInt8) := do
  toOctets (← response.toBitstream)

end Response

theorem uint_ok {n v : Nat} {s : List Bool} :
    uint n v = .ok s ↔ v < 2 ^ n ∧ bits n v = s := by
  rw [uint]
  split
  · rename_i small
    simp [small]
  · rename_i large
    simp [large]

theorem uint_ok_iff {n v : Nat} : (∃ s, uint n v = .ok s) ↔ v < 2 ^ n := by
  simp only [uint_ok, exists_and_left, exists_eq', and_true]

theorem uint_total {n v : Nat} (small : v < 2 ^ n) : ∃ s, uint n v = .ok s :=
  ⟨_, uint_ok.mpr ⟨small, rfl⟩⟩

theorem told_uint (n v w : Nat) : Told (uint n v) (uint n w) (v = w) := by
  intro s t u r written written' same
  obtain ⟨small, rfl⟩ := uint_ok.mp written
  obtain ⟨small', rfl⟩ := uint_ok.mp written'
  obtain ⟨first, rest⟩ := List.append_inj same (by rw [length_bits, length_bits])
  exact ⟨bits_inj small small' first, rest⟩

theorem fills_uint (n v : Nat) : Fills n (uint n v) := by
  intro s written
  obtain ⟨-, rfl⟩ := uint_ok.mp written
  rw [length_bits]

def afiNumber : Option IPNetwork → Nat
  | none => 0
  | some address =>
      match address.family with
      | .v4 => 1
      | .v6 => 2

def ipBits (address : Option IPNetwork) : Except PyExc (List Bool) :=
  match address with
  | none => .ok []
  | some address => uint address.family.width address.value

theorem getBitstreamForAfiAddress_eq (address : Option IPNetwork) :
    getBitstreamForAfiAddress address = joined [uint 16 (afiNumber address), ipBits address] := by
  cases address with
  | none => rfl
  | some address =>
      rw [getBitstreamForAfiAddress, afiNumber, ipBits]
      cases address.family with
      | v4 => rfl
      | v6 => rfl

theorem serverBits_eq (key : IPNetwork) : serverBits key = getBitstreamForAfiAddress (some key) := by
  rw [serverBits, getBitstreamForAfiAddress]
  cases key.family with
  | v4 => rfl
  | v6 => rfl

theorem told_ipBits {a b : Option IPNetwork} (same : afiNumber a = afiNumber b) :
    Told (ipBits a) (ipBits b) (a.map IPNetwork.ip = b.map IPNetwork.ip) := by
  have known {a b : IPNetwork} (family : a.family = b.family) :
      Told (ipBits (some a)) (ipBits (some b)) (some a.ip = some b.ip) := by
    rw [ipBits, ipBits, family]
    apply (told_uint b.family.width a.value b.value).imp
    intro value
    exact congrArg some (IPAddress.eq_of_value family value)
  cases a with
  | none =>
      cases b with
      | none => exact Told.fixed [] rfl
      | some b =>
          rw [afiNumber, afiNumber] at same
          split at same <;> cases same
  | some a =>
      cases b with
      | none =>
          rw [afiNumber, afiNumber] at same
          split at same <;> cases same
      | some b =>
          apply known
          rw [afiNumber, afiNumber] at same
          cases first : a.family <;> cases second : b.family <;> simp_all

theorem told_address (a b : Option IPNetwork) :
    Told (getBitstreamForAfiAddress a) (getBitstreamForAfiAddress b)
      (a.map IPNetwork.ip = b.map IPNetwork.ip) := by
  rw [getBitstreamForAfiAddress_eq, getBitstreamForAfiAddress_eq]
  apply (Told.cons (told_uint 16 _ _) fun same =>
    Told.cons (told_ipBits same) fun _ => Told.nil).imp
  rintro ⟨-, address, -⟩
  exact address

theorem fills_address (a : Option IPNetwork) : Fills 0 (getBitstreamForAfiAddress a) := by
  intro s written
  cases a with
  | none =>
      cases written
      rfl
  | some a =>
      rw [getBitstreamForAfiAddress] at written
      split at written
      · exact ((fills_uint 16 1).cons ((fills_uint 32 _).cons Fills.nil)) s written
      · exact ((fills_uint 16 2).cons ((fills_uint 128 _).cons Fills.nil)) s written

theorem address_ok (a : Option IPNetwork) : ∃ s, getBitstreamForAfiAddress a = .ok s := by
  cases a with
  | none => exact ⟨_, rfl⟩
  | some a =>
      have small := a.bound
      rw [getBitstreamForAfiAddress]
      cases family : a.family with
      | v4 =>
          rw [family] at small
          change a.value < 2 ^ 32 at small
          exact joined_ok_iff.mpr (by simp [uint_total small, uint_total (by decide : 1 < 2 ^ 16)])
      | v6 =>
          rw [family] at small
          change a.value < 2 ^ 128 at small
          exact joined_ok_iff.mpr (by simp [uint_total small, uint_total (by decide : 2 < 2 ^ 16)])

def LocatorRecord.shown (record : LocatorRecord) : Option IPAddress × Nat × Nat :=
  (record.locator.map IPNetwork.ip, record.priority, record.weight)

theorem told_locator (a b : LocatorRecord) :
    Told a.toBitstream b.toBitstream (a.shown = b.shown) := by
  apply (Told.cons (told_uint 8 _ _) fun _ => Told.cons (told_uint 8 _ _) fun _ =>
    Told.cons (told_uint 8 _ _) fun _ => Told.cons (told_uint 8 _ _) fun _ =>
    Told.cons (told_uint 13 _ _) fun _ => Told.cons (told_uint 3 _ _) fun _ =>
    Told.cons (told_address _ _) fun _ => Told.nil).imp
  rintro ⟨priority, weight, -, -, -, -, locator, -⟩
  rw [LocatorRecord.shown, LocatorRecord.shown, priority, weight, locator]

theorem fills_locator (a : LocatorRecord) : Fills 0 a.toBitstream :=
  (fills_uint 8 _).cons ((fills_uint 8 _).cons ((fills_uint 8 _).cons ((fills_uint 8 _).cons
    ((fills_uint 13 _).cons ((fills_uint 3 _).cons ((fills_address _).cons Fills.nil))))))

theorem told_locatorBits (a b : LocatorRecord) :
    Told (MapReplyRecord.locatorBits a) (MapReplyRecord.locatorBits b) (a.shown = b.shown) := by
  have written {a : LocatorRecord} {s : List Bool} (same : MapReplyRecord.locatorBits a = .ok s) :
      a.toBitstream = .ok s := by
    rw [MapReplyRecord.locatorBits] at same
    split at same
    · cases same
    · rename_i bitstream known
      rw [known, same]
  intro s t u w first second same
  exact told_locator a b s t u w (written first) (written second) same

theorem fills_locatorBits (a : LocatorRecord) : Fills 0 (MapReplyRecord.locatorBits a) := by
  intro s written
  rw [MapReplyRecord.locatorBits] at written
  split at written
  · cases written
  · rename_i bitstream known
    cases written
    exact fills_locator a s known

theorem told_maskLength (a b : MapReplyRecord) : Told a.maskLength b.maskLength
    (a.eidPrefix.map IPNetwork.prefixlen = b.eidPrefix.map IPNetwork.prefixlen) := by
  rw [MapReplyRecord.maskLength, MapReplyRecord.maskLength]
  cases a.eidPrefix with
  | none =>
      intro s t u w written
      cases written
  | some x =>
      cases b.eidPrefix with
      | none =>
          intro s t u w _ written
          cases written
      | some y => exact (told_uint 8 _ _).imp fun same => congrArg some same

theorem fills_maskLength (a : MapReplyRecord) : Fills 8 a.maskLength := by
  intro s written
  rw [MapReplyRecord.maskLength] at written
  split at written
  · cases written
  · exact fills_uint 8 _ s written

theorem eidPrefix_eq {a b : Option IPNetwork} (ips : a.map IPNetwork.ip = b.map IPNetwork.ip)
    (lengths : a.map IPNetwork.prefixlen = b.map IPNetwork.prefixlen) : a = b := by
  cases a with
  | none =>
      cases b with
      | none => rfl
      | some b => cases ips
  | some a =>
      cases b with
      | none => cases ips
      | some b =>
          obtain ⟨family, value, prefixlen, bound, short⟩ := a
          obtain ⟨family', value', prefixlen', bound', short'⟩ := b
          obtain ⟨rfl, rfl⟩ := IPAddress.mk.inj (Option.some.inj ips)
          cases lengths
          rfl

theorem told_record (a b : MapReplyRecord) : Told a.toBitstream b.toBitstream
    (a.eidPrefix = b.eidPrefix ∧
      a.locatorRecords.map LocatorRecord.shown = b.locatorRecords.map LocatorRecord.shown) := by
  rw [MapReplyRecord.toBitstream, MapReplyRecord.toBitstream]
  apply (Told.cons (told_uint 32 _ _) fun _ => Told.cons (told_uint 8 _ _) fun lengths =>
    Told.cons (told_maskLength a b) fun _ => Told.cons (told_uint 3 _ _) fun _ =>
    Told.cons (Told.bit _ _) fun _ => Told.cons (Told.fixed _ trivial) fun _ =>
    Told.cons (told_uint 12 _ _) fun _ => Told.cons (told_address _ _) fun _ =>
    Told.map told_locatorBits lengths).imp
  rintro ⟨-, -, masks, -, -, -, -, ips, records⟩
  exact ⟨eidPrefix_eq ips masks, records⟩

theorem fills_record (a : MapReplyRecord) : Fills 0 a.toBitstream :=
  (fills_uint 32 _).cons ((fills_uint 8 _).cons ((fills_maskLength a).cons ((fills_uint 3 _).cons
    ((Fills.fixed (List.length_singleton)).cons ((Fills.fixed List.length_replicate).cons
      ((fills_uint 12 _).cons ((fills_address _).cons (Fills.map fills_locatorBits _))))))))

def Info.Same : Info → Info → Prop
  | mapServers info, mapServers info' => info.map IPNetwork.ip = info'.map IPNetwork.ip
  | mapReplyRecord record, mapReplyRecord record' => record.eidPrefix = record'.eidPrefix ∧
      record.locatorRecords.map LocatorRecord.shown = record'.locatorRecords.map LocatorRecord.shown
  | _, _ => False

theorem told_server (a b : IPNetwork) : Told (serverBits a) (serverBits b) (a.ip = b.ip) := by
  rw [serverBits_eq, serverBits_eq]
  exact (told_address (some a) (some b)).imp Option.some.inj

theorem told_info {a b : Info} (flags : a.flag = b.flag) :
    Told a.toBitstream b.toBitstream (a.Same b) := by
  cases a with
  | mapServers info =>
      cases b with
      | mapServers info' =>
          apply (Told.cons (told_uint 8 _ _) fun lengths => Told.map told_server lengths).imp
          rintro ⟨-, servers⟩
          exact servers
      | mapReplyRecord record => cases flags
  | mapReplyRecord record =>
      cases b with
      | mapServers info => cases flags
      | mapReplyRecord record' => exact told_record record record'

theorem told_response (a b : Response) :
    Told a.toBitstream b.toBitstream (a.nonce = b.nonce ∧ a.info.Same b.info) := by
  apply (Told.cons (told_uint 64 _ _) fun _ => Told.cons (told_uint 8 _ _) fun flags =>
    Told.cons (told_info flags) fun _ => Told.nil).imp
  rintro ⟨nonce, -, info, -⟩
  exact ⟨nonce, info⟩

theorem fills_info (a : Info) : Fills 0 a.toBitstream := by
  cases a with
  | mapServers info =>
      have server (key : IPNetwork) : Fills 0 (serverBits key) := by
        rw [serverBits_eq]
        exact fills_address (some key)
      exact (fills_uint 8 _).cons (Fills.map server info)
  | mapReplyRecord record => exact fills_record record

theorem fills_response (a : Response) : Fills 0 a.toBitstream :=
  (fills_uint 64 _).cons ((fills_uint 8 _).cons ((fills_info a.info).cons Fills.nil))

@[mk_iff]
structure LocatorRecord.InRange (record : LocatorRecord) : Prop where
  priority : record.priority < 2 ^ 8
  weight : record.weight < 2 ^ 8
  mpriority : record.mpriority < 2 ^ 8
  mweight : record.mweight < 2 ^ 8
  unusedflags : record.unusedflags < 2 ^ 13
  lpR : record.lpR < 2 ^ 3

@[mk_iff]
structure MapReplyRecord.InRange (record : MapReplyRecord) : Prop where
  ttl : record.ttl < 2 ^ 32
  action : record.action < 2 ^ 3
  mapVersion : record.mapVersion < 2 ^ 12
  eidPrefix : record.eidPrefix ≠ none
  count : record.locatorRecords.length < 2 ^ 8
  locatorRecords : ∀ locator ∈ record.locatorRecords, locator.InRange

def Info.InRange : Info → Prop
  | mapServers info => info.length < 2 ^ 8
  | mapReplyRecord record => record.InRange

@[mk_iff]
structure Response.InRange (response : Response) : Prop where
  nonce : response.nonce < 2 ^ 64
  info : response.info.InRange

theorem LocatorRecord.ok_iff (record : LocatorRecord) :
    (∃ s, MapReplyRecord.locatorBits record = .ok s) ↔ record.InRange := by
  have written : (∃ s, record.toBitstream = .ok s) ↔ record.InRange := by
    rw [LocatorRecord.toBitstream, joined_ok_iff, LocatorRecord.inRange_iff]
    simp [uint_ok_iff, address_ok]
  rw [← written, MapReplyRecord.locatorBits]
  cases record.toBitstream with
  | ok s => simp
  | error e => simp

theorem MapReplyRecord.maskLength_ok_iff (record : MapReplyRecord) :
    (∃ s, record.maskLength = .ok s) ↔ record.eidPrefix ≠ none := by
  rw [MapReplyRecord.maskLength]
  cases record.eidPrefix with
  | none => simp
  | some eidPrefix =>
      refine iff_of_true (uint_total ?_) (Option.some_ne_none _)
      have short := eidPrefix.short
      cases family : eidPrefix.family with
      | v4 =>
          rw [family, Family.width] at short
          omega
      | v6 =>
          rw [family, Family.width] at short
          omega

theorem MapReplyRecord.ok_iff (record : MapReplyRecord) :
    (∃ s, record.toBitstream = .ok s) ↔ record.InRange := by
  rw [MapReplyRecord.toBitstream, joined_ok_iff, List.forall_mem_append, List.forall_mem_map,
    MapReplyRecord.inRange_iff]
  simp only [LocatorRecord.ok_iff]
  simp [uint_ok_iff, address_ok, record.maskLength_ok_iff]
  tauto

theorem Info.ok_iff (info : Info) : (∃ s, info.toBitstream = .ok s) ↔ info.InRange := by
  cases info with
  | mapServers info =>
      have keys : ∀ key ∈ info, ∃ s, serverBits key = .ok s := by
        intro key _
        rw [serverBits_eq]
        exact address_ok (some key)
      rw [Info.toBitstream, joined_ok_iff, List.forall_mem_cons, List.forall_mem_map,
        and_iff_left keys, uint_ok_iff]
      rfl
  | mapReplyRecord record => exact record.ok_iff

theorem Response.ok_iff (response : Response) :
    (∃ s, response.toBitstream = .ok s) ↔ response.InRange := by
  have flag : response.info.flag < 2 ^ 8 := by
    cases response.info with
    | mapServers info => exact Nat.two_pow_pos 8
    | mapReplyRecord record => exact Nat.one_lt_two_pow (by decide)
  rw [Response.toBitstream, joined_ok_iff, Response.inRange_iff]
  simp only [List.forall_mem_cons, List.not_mem_nil, false_imp_iff, implies_true, and_true,
    uint_ok_iff, Info.ok_iff, flag, true_and]

theorem Response.toBytes_of_bits {response : Response} {s : List Bool}
    (known : response.toBitstream = .ok s) :
    ∃ data, response.toBytes = .ok data ∧ octets s = some data := by
  rcases octets_total (fills_response response s known) with ⟨data, read⟩
  refine ⟨data, ?_, read⟩
  rw [Response.toBytes, known]
  change toOctets s = .ok data
  rw [toOctets, read]

theorem Response.toBytes_ok_iff (response : Response) :
    (∃ data, response.toBytes = .ok data) ↔ response.InRange := by
  rw [← response.ok_iff]
  constructor
  · rintro ⟨data, written⟩
    cases known : response.toBitstream with
    | ok s => exact ⟨s, rfl⟩
    | error e =>
        rw [Response.toBytes, known] at written
        cases written
  · rintro ⟨s, known⟩
    rcases Response.toBytes_of_bits known with ⟨data, written, -⟩
    exact ⟨data, written⟩

theorem Response.InRange.ok {response : Response} (inRange : response.InRange) :
    ∃ s data, response.toBitstream = .ok s ∧ s.length % 8 = 0 ∧ response.toBytes = .ok data ∧
      octets s = some data := by
  rcases response.ok_iff.mpr inRange with ⟨s, known⟩
  rcases Response.toBytes_of_bits known with ⟨data, written, read⟩
  exact ⟨s, data, known, fills_response response s known, written, read⟩

/-- Two responses of the same octets say the same, and every response fills its octets. -/
theorem unambiguous {a b : Response} (inRange : a.InRange) (inRange' : b.InRange)
    (same : a.toBytes = b.toBytes) :
    (a.nonce = b.nonce ∧ a.info.Same b.info) ∧
      ∃ s, a.toBitstream = .ok s ∧ s.length % 8 = 0 := by
  obtain ⟨s, data, written, whole, bytes, read⟩ := inRange.ok
  obtain ⟨t, data', written', -, bytes', read'⟩ := inRange'.ok
  rw [bytes, bytes', Except.ok.injEq] at same
  subst same
  have equal := octets_inj read read'
  exact ⟨(told_response a b s t [] [] written written' (by rw [equal])).1, s, written, whole⟩

namespace Sample

def reply (mask : Nat) : Response where
  nonce := 7
  info := .mapReplyRecord {
    eidPrefix := some (net 1 16)
    locatorRecords := [
      { priority := 1, weight := 50, locator := some (net 2 mask) },
      { priority := 2, weight := 50, locator := some (net6 1 128) },
      { priority := 255, locator := none }] }

theorem reply_inRange (mask : Nat) : (reply mask).InRange := by
  refine ⟨by norm_num [reply], ⟨by norm_num, by norm_num [actNoAction], by norm_num,
    Option.some_ne_none _, by norm_num, ?_⟩⟩
  intro locator member
  simp only [List.mem_cons, List.not_mem_nil, or_false] at member
  rcases member with rfl | rfl | rfl
  · exact ⟨by norm_num, by norm_num, by norm_num, by norm_num, by norm_num, by norm_num⟩
  · exact ⟨by norm_num, by norm_num, by norm_num, by norm_num, by norm_num, by norm_num⟩
  · exact ⟨by norm_num, by norm_num, by norm_num, by norm_num, by norm_num, by norm_num⟩

theorem reply_told : (reply 32).info.Same (reply 24).info ∧
    ∃ s, (reply 32).toBitstream = .ok s ∧ s.length % 8 = 0 := by
  have told := unambiguous (reply_inRange 32) (reply_inRange 24) (by decide)
  exact ⟨told.1.2, told.2⟩

end Sample

end IPchain
