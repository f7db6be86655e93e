import IPchain.Beacon
import IPchain.Lib.Program
import Mathlib.Data.List.AList

/-! Shares, the key generation of a group, and what a node keeps of both. -/

namespace IPchain

open Lib Platform

/-- bls.exe and its wrapper, which returns an empty string when the program fails. -/
class Bls where
  genKeys : Int → Bytes
  secretKeyShare : Bytes → List Bytes → Bytes
  publicKeyShare : Bytes → List Bytes → Bytes
  getPublicKey : Bytes → Bytes
  publicKeyIsEqual : Bytes → Bytes → Bool
  secretKeyAdd : Bytes → Bytes → Bytes
  publicKeyAdd : Bytes → Bytes → Bytes
  sign : Bytes → Bytes → Bytes
  verify : Bytes → Bytes → Bytes → Bool
  recover : List Bytes → List Bytes → Bytes

class Threshold where
  threshold : Nat

structure Share where
  source : Option Address
  signature : Bytes
  blockNumber : Nat
  deriving DecidableEq

structure DkgShare where
  source : Option Address
  destination : Option Address
  secretShareContrib : Bytes
  verifVector : List Bytes
  deriving DecidableEq

structure Member where
  id : Bytes
  receivedShare : Option Bytes
  vvec : Option (List Bytes)
  deriving DecidableEq

abbrev Group := AList fun _ : Address => Member

/-- What the shares of a round have come to, and the signer that the last one selected. -/
structure Round where
  currentRandomNo : Bytes
  groupSig : Bytes
  shares : List Bytes
  sharesIds : List Bytes
  verified : Bool
  nextSigner : IPAddress
  deriving DecidableEq

/-- `members` has no value before the first group is stored, and one group without an
associated key generation in a node that does not take part in it. -/
structure Consensus extends Round where
  dkgGroup : List Address
  ownIds : List Address
  secretKeys : AList fun _ : Address => Bytes
  groupKey : Bytes
  previousGroupKey : Bytes
  msg : Bytes
  members : Option (AList fun _ : Option Address => Group)

def adler32 (data : Bytes) : Int :=
  let sums := data.foldl (fun (a, b) d => ((a + d.toNat) % 65521, (b + (a + d.toNat)) % 65521)) (1, 0)
  let sum := 65536 * sums.2 + sums.1
  if sum < 2 ^ 31 then sum else sum - 2 ^ 32

def rows {K D : Type} [DecidableEq K] [Platform] (dict : AList fun _ : K => D) : List (K × D) :=
  items (dict.entries.map fun row => (row.1, row.2))

section Dkg

variable [Bls]

def addContributionShares (secretKeyShares : List Bytes) : Except PyExc Bytes :=
  match secretKeyShares.reverse with
  | [] => .error ⟨.indexError, "pop from empty list"⟩
  | last :: others => .ok (others.reverse.foldl Bls.secretKeyAdd last)

def addVector : List (Option Bytes) → List Bytes → Except PyExc (List (Option Bytes))
  | keys, [] => .ok keys
  | [], _ :: _ => .error ⟨.indexError, "list index out of range"⟩
  | key :: keys, pk2 :: vVec => do
      let sum := match key with
        | none | some [] => pk2
        | some pk1 => Bls.publicKeyAdd pk1 pk2
      return some sum :: (← addVector keys vVec)

def addVerificationVectors (vVecs : List (List Bytes)) : Except PyExc (List (Option Bytes)) :=
  match vVecs with
  | [] => .error ⟨.indexError, "list index out of range"⟩
  | first :: _ => vVecs.foldlM addVector (List.replicate first.length none)

def verifyContributionShare (id contribution : Bytes) (vVec : List Bytes) : Bool :=
  Bls.publicKeyIsEqual (Bls.publicKeyShare id vVec) (Bls.getPublicKey contribution)

def groupMembers : List Address → Group → Except PyExc Group
  | [], members => .ok members
  | oid :: group, members =>
      let secKey := Bls.genKeys (adler32 oid.bytes)
      if secKey = [] then .error ⟨.dkgGenKeysError, ""⟩
      else groupMembers group (members.insert oid ⟨secKey, none, none⟩)

end Dkg

namespace Consensus

variable [Platform] [Hashlib]

def init (dkgGroup nodeIds : List Address) (randno groupKey : Bytes) (blockNo : Nat)
    (groupSignature prevGpKey : Bytes) : Except PyExc Consensus := do
  let signer ← selectSigner randno blockNo
  return {
    currentRandomNo := randno
    groupSig := groupSignature
    shares := []
    sharesIds := []
    verified := true
    nextSigner := signer
    dkgGroup := dkgGroup
    ownIds := nodeIds
    secretKeys := ∅
    groupKey := groupKey
    previousGroupKey := prevGpKey
    msg := []
    members := none }

def calculateNextSigner (blockNumber : Nat) : EStateM PyExc Consensus Unit := fun c =>
  match selectSigner c.currentRandomNo blockNumber with
  | .ok signer => .ok () { c with nextSigner := signer }
  | .error e => .error e c

def sharesReady (c : Consensus) : Bool := c.verified

def resetBls (c : Consensus) : Consensus :=
  { c with shares := [], sharesIds := [], verified := false }

def memberId (c : Consensus) (source : Option Address) : Except PyExc Bytes :=
  match c.members with
  | none => .error ⟨.attributeError, "Consensus instance has no attribute 'members'"⟩
  | some members =>
      match rows members with
      | [] => .error ⟨.indexError, "list index out of range"⟩
      | (_, group) :: _ =>
          match source.bind fun oid => group.lookup oid with
          | none => .error ⟨.keyError, ""⟩
          | some member => .ok member.id

variable [Bls]

def verifyGroupSig (c : Consensus) (expectedMessage blockGroupSig : Bytes)
    (usePrevGroupKey : Bool) : Bool :=
  Bls.verify (hexdigest expectedMessage) blockGroupSig
    (if usePrevGroupKey then c.previousGroupKey else c.groupKey)

def storeIds (newDkgGroup : List Address) : EStateM PyExc Consensus Unit := fun c =>
  match groupMembers newDkgGroup ∅ with
  | .error e => .error e { c with
      previousGroupKey := c.groupKey, dkgGroup := newDkgGroup, ownIds := [] }
  | .ok group => .ok () { c with
      previousGroupKey := c.groupKey
      dkgGroup := newDkgGroup
      ownIds := []
      members := some (AList.insert none group ∅) }

def bootstrapMasterAddSecretKeysManual (manualKeys : List (Address × Bytes))
    (myDkgIds : List Address) : EStateM PyExc Consensus Unit := fun c =>
  match storeIds c.dkgGroup c with
  | .error e c => .error e c
  | .ok () c => .ok () { c with
      ownIds := myDkgIds
      verified := false
      secretKeys := manualKeys.foldl (fun keys row => keys.insert row.1 row.2) c.secretKeys }

def allSharesReceived (group : Group) : Bool :=
  (rows group).all fun row =>
    match row.2.receivedShare with
    | none | some [] => false
    | some _ => true

def finishedFor (members : Option (AList fun _ : Option Address => Group)) :
    List Address → Except PyExc Bool
  | [] => .ok true
  | oid :: ids =>
      match members.bind fun members => members.lookup (some oid) with
      | none => .error ⟨.keyError, ""⟩
      | some group => if allSharesReceived group then finishedFor members ids else .ok false

def allNodeDkgsFinished (c : Consensus) : Except PyExc Bool := finishedFor c.members c.ownIds

def finishDkg (destination : Address) (group : Group) : EStateM PyExc Consensus Unit := fun c =>
  match addContributionShares ((rows group).filterMap fun row => row.2.receivedShare) with
  | .error e => .error e c
  | .ok secretKey =>
      let c := { c with secretKeys := c.secretKeys.insert destination secretKey }
      if secretKey = [] then .error ⟨.dkgAddContributionSharesError, ""⟩ c
      else
        match addVerificationVectors ((rows group).filterMap fun row => row.2.vvec) with
        | .error e => .error e c
        | .ok (some key :: _) =>
            if key = [] then
              .error ⟨.dkgAddVerificationVectorsError, ""⟩ { c with groupKey := key }
            else .ok () { c with groupKey := key }
        | .ok _ => .error ⟨.indexError, "list index out of range"⟩ c

def storeContribution (contribution : DkgShare) (oid destination : Address) (sender : Member)
    (group : Group) : EStateM PyExc Consensus Unit := fun c =>
  match group.lookup destination with
  | none => .error ⟨.keyError, ""⟩ c
  | some receiver =>
      let contrib := contribution.secretShareContrib
      let vVec := contribution.verifVector
      let group :=
        if verifyContributionShare receiver.id contrib vVec then
          group.insert oid { sender with receivedShare := some contrib, vvec := some vVec }
        else group
      let c := { c with
        members := c.members.map fun members => members.insert (some destination) group }
      if allSharesReceived group then finishDkg destination group c else .ok () c

def verifyDkgContribution (contribution : DkgShare) : EStateM PyExc Consensus Unit := fun c =>
  match c.members, contribution.source, contribution.destination with
  | some members, some oid, some destination =>
      match (members.lookup (some destination)).bind fun group =>
          (group.lookup oid).map fun sender => (group, sender) with
      | none => .error ⟨.keyError, ""⟩ c
      | some (group, sender) =>
          match sender.receivedShare with
          | some _ => .ok () c
          | none => storeContribution contribution oid destination sender group c
  | none, _, _ => .error ⟨.attributeError, "Consensus instance has no attribute 'members'"⟩ c
  | some _, _, _ => .error ⟨.keyError, ""⟩ c

variable [Threshold]

open Threshold

def storeShare (share : Share) (expectedMessage : Bytes) : EStateM PyExc Consensus Bool := fun c =>
  match c.memberId share.source with
  | .error e => .error e c
  | .ok dkgId =>
      if dkgId ∉ c.sharesIds ∧ c.verified = false then
        let ids := c.sharesIds ++ [dkgId]
        let c := { c with sharesIds := ids, shares := c.shares ++ [share.signature] }
        if threshold ≤ ids.length then
          let groupSig := Bls.recover ids c.shares
          let c := { c with groupSig := groupSig }
          if groupSig = [] then .error ⟨.blsRecoverError, ""⟩ c
          else if Bls.verify (hexdigest expectedMessage) groupSig c.groupKey then
            .ok true { c with verified := true, currentRandomNo := hexdigest groupSig }
          else .error ⟨.blsInvalidGroupSignature, ""⟩ c
        else .ok false c
      else .ok false c

def storeShares (msg : Bytes) : List Share → EStateM PyExc Consensus Unit
  | [] => pure ()
  | share :: shares => do
      let _ ← storeShare share msg
      storeShares msg shares

def newShares (secretKeys : AList fun _ : Address => Bytes) (digest : Bytes) (blockNum : Nat) :
    List Address → Except PyExc (List Share)
  | [] => .ok []
  | oid :: ids =>
      match secretKeys.lookup oid with
      | none => newShares secretKeys digest blockNum ids
      | some key =>
          let sig := Bls.sign digest key
          if sig = [] then .error ⟨.blsSignError, ""⟩
          else List.cons ⟨some oid, sig, blockNum⟩ <$> newShares secretKeys digest blockNum ids

def createShares (lastRandomNo : Bytes) (blockNum count : Nat) :
    EStateM PyExc Consensus (List Share) := fun c =>
  let msg := beaconMessage lastRandomNo blockNum count
  let c := { c with msg := msg }
  match newShares c.secretKeys (hexdigest msg) blockNum c.ownIds with
  | .error e => .error e c
  | .ok shares =>
      match storeShares msg shares c with
      | .ok () c => .ok shares c
      | .error e c => .error e c

/-- `generateContribution`. `draw i` is the key pair that bls.exe makes at its `i`-th run. -/
def generateContribution (draw : Nat → Bytes × Bytes) (ids : List Bytes) :
    List Bytes × List Bytes :=
  let pairs := (List.range threshold).map draw
  (pairs.map Prod.snd, ids.map fun id => Bls.secretKeyShare id (pairs.map Prod.fst))

/-- The contributions of one id of this node: its own are verified, the others are to be sent. -/
def contribute (nodeId : Address) (vVec : List Bytes) :
    List (Address × Bytes) → EStateM PyExc Consensus (List DkgShare)
  | [] => pure []
  | (oid, contrib) :: others => fun c =>
      let share : DkgShare := ⟨some nodeId, some oid, contrib, vVec⟩
      if oid ∈ c.ownIds then
        (do
          verifyDkgContribution share
          contribute nodeId vVec others) c
      else (List.cons share <$> contribute nodeId vVec others) c

def contributeAll (draw : Address → Nat → Bytes × Bytes) :
    List (Address × Group) → EStateM PyExc Consensus (List DkgShare)
  | [] => pure []
  | (nodeId, group) :: others => do
      let (vVec, contribs) :=
        generateContribution (draw nodeId) ((rows group).map fun row => row.2.id)
      if [] ∈ contribs then raised ⟨.dkgGenerateSecretKeyShareError, ""⟩
      else do
        let sent ← contribute nodeId vVec (((rows group).map Prod.fst).zip contribs)
        let more ← contributeAll draw others
        return sent ++ more

def newDkg (draw : Address → Nat → Bytes × Bytes) (newDkgGroup newNodeIds : List Address) :
    EStateM PyExc Consensus (List DkgShare) := fun c =>
  let c := { c with
    previousGroupKey := c.groupKey, members := some ∅, dkgGroup := newDkgGroup, ownIds := newNodeIds }
  match groupMembers newDkgGroup ∅ with
  | .error e => if newNodeIds = [] then .ok [] c else .error e c
  | .ok group =>
      let members := newNodeIds.foldl
        (fun members (nodeId : Address) => AList.insert (some nodeId) group members) ∅
      contributeAll draw
        ((rows members).filterMap fun row => row.1.map fun nodeId => (nodeId, row.2))
        { c with members := some members }

end Consensus

structure ShareCache where
  dkgShareCache : List Bytes
  blsShareCache : List Bytes
  blsFutureShares : AList fun _ : Nat => List Share
  lastTimeClear : Nat

namespace ShareCache

def clearingInterval : Nat := 100000 * 10 ^ 6

def init (now : Nat) : ShareCache := ⟨[], [], ∅, now⟩

def inDkgCache (cache : ShareCache) (share : DkgShare) : Bool :=
  share.secretShareContrib ∈ cache.dkgShareCache

def inBlsCache (cache : ShareCache) (share : Share) : Bool :=
  share.signature ∈ cache.blsShareCache

def cleared (cache : ShareCache) (now : Nat) : ShareCache :=
  if cache.lastTimeClear + clearingInterval < now then
    { cache with blsShareCache := [], dkgShareCache := [], lastTimeClear := now }
  else cache

def storeDkg (now : Nat) (share : DkgShare) (cache : ShareCache) : ShareCache :=
  let cache := cache.cleared now
  { cache with dkgShareCache := cache.dkgShareCache ++ [share.secretShareContrib] }

def storeBls (now : Nat) (share : Share) (cache : ShareCache) : ShareCache :=
  let cache := cache.cleared now
  { cache with blsShareCache := cache.blsShareCache ++ [share.signature] }

def storeFutureBls (share : Share) (cache : ShareCache) : ShareCache :=
  let waiting := (cache.blsFutureShares.lookup share.blockNumber).getD []
  { cache with
    blsFutureShares := cache.blsFutureShares.insert share.blockNumber (waiting ++ [share]) }

def futureBls (cache : ShareCache) (blockNum : Nat) : List Share :=
  (cache.blsFutureShares.lookup blockNum).getD []

def pendingFutureBls (cache : ShareCache) (blockNum : Nat) : Bool := cache.futureBls blockNum ≠ []

/-- `get_future_bls`, where a share is pending. -/
def popFutureBls (cache : ShareCache) (blockNum : Nat) : ShareCache :=
  { cache with
    blsFutureShares :=
      cache.blsFutureShares.insert blockNum (cache.futureBls blockNum).dropLast }

end ShareCache

end IPchain
