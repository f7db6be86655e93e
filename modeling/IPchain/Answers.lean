import IPchain.Signer
import IPchain.Locators
import IPchain.MapReply
import IPchain.Replay
import IPchain.Service

/-! The queries of the router. What they are answered with is the last announcement of the
account that holds the address. -/

namespace IPchain

open Lib IPSet

section Query

variable {S R : Type} [IPSet S] [Radix R Address] [Platform]

def locatorRecord (key : IPNetwork) : Option Nat × Option Nat → Except PyExc LocatorRecord
  | (some priority, some weight) =>
      .ok { priority := priority, weight := weight, locator := some key }
  | _ => .error ⟨.typeError, "%d format: a number is required, not NoneType"⟩

/-- What `query_eid` tells of a balance. -/
def Balance.info (b : Balance S) (ipaddr : IPAddress) : Except PyExc (Option Info) :=
  if b.mapServer.entries.length > 0 then
    .ok (some (.mapServers ((Platform.items (b.mapServer.entries.map fun row =>
      (row.1, row.2))).map Prod.fst)))
  else if b.locator.entries.length > 0 then do
    let records ← (Platform.items (b.locator.entries.map fun row => (row.1, row.2))).mapM
      fun row => locatorRecord row.1 row.2
    return some (.mapReplyRecord
      { eidPrefix := some (IPNetwork.ofAddress ipaddr), locatorRecords := records })
  else .ok none

def Balance.answer (b : Balance S) (ipaddr : IPAddress) (nonce : Nat) :
    Except PyExc (Option Bytes) := do
  match ← b.info ipaddr with
  | none => return none
  | some info => do
      let data ← Response.toBytes ⟨nonce, info⟩
      return some data

namespace Service

def reply (ipaddr : IPAddress) (nonce : Nat) : EStateM PyExc (Service S R) (Option Bytes) := do
  let svc ← get
  let address ← lift (svc.chain.getAddrFromIp ipaddr)
  let balance ← onState (getBalance address)
  lift (balance.answer ipaddr nonce)

def queryEid (ipaddr : IPAddress) (nonce : Nat) : EStateM PyExc (Service S R) (Option Bytes) :=
  fun svc =>
    match reply ipaddr nonce svc with
    | .ok answer svc => .ok answer svc
    | .error _ svc => .ok none svc

end Service

def Oor.send : Option Bytes → Except PyExc Bytes
  | some info => .ok info
  | none => .error ⟨.typeError, "must be string or buffer, not None"⟩

/-- The queries of the router, in the main loop. It ends when this raises. -/
def Service.answerQuery (query : Option (Nat × IPAddress)) :
    EStateM PyExc (Service S R) (Option Bytes) :=
  match query with
  | none => pure none
  | some (nonce, address) => do
      let info ← queryEid address nonce
      let sent ← lift (Oor.send info)
      return some sent

end Query

structure Mapping where
  mapServer : AList fun _ : IPNetwork => Bytes
  locator : AList fun _ : IPNetwork => Option Nat × Option Nat

def Mapping.none : Mapping := ⟨∅, ∅⟩

def Balance.mapping {S : Type} (b : Balance S) : Mapping := ⟨b.mapServer, b.locator⟩

def Transaction.announcement (tx : Transaction) : Option Mapping :=
  if tx.category = 2 then
    (Balance.mapServers ∅ tx.metadata.elements).toOption.map fun servers => ⟨servers, ∅⟩
  else if tx.category = 3 then
    (Balance.locators [] (none, none) tx.metadata.elements).toOption.map fun dict => ⟨∅, dict⟩
  else none

def latest (announcements : List Mapping) (m : Mapping) : Mapping := announcements.getLast?.getD m

theorem latest_append (first second : List Mapping) (m : Mapping) :
    latest (first ++ second) m = latest second (latest first m) := by
  rw [latest, latest, latest, List.getLast?_append]
  cases second.getLast? <;> rfl

section Announcements

variable [Platform]

def announcementsOf (a : Address) (txs : List Transaction) : List Mapping :=
  (sentBy Transaction.origin a txs).filterMap Transaction.announcement

/-- What stands of the announcements of an account. -/
def standing (txs : List Transaction) (a : Address) : Mapping :=
  latest (announcementsOf a txs) .none

theorem announcementsOf_append (a : Address) (txs more : List Transaction) :
    announcementsOf a (txs ++ more) = announcementsOf a txs ++ announcementsOf a more := by
  rw [announcementsOf, sentBy, List.filter_append, List.filterMap_append]
  rfl

variable {S : Type} [IPSet S]

theorem moveIps_mapping {L L' : Ledger S} {tx : Transaction} {cached c : Cached}
    {debit credit : Address → IPNetwork → Balance S → Balance S}
    (debits : ∀ a V b, (debit a V b).mapping = b.mapping)
    (credits : ∀ a V b, (credit a V b).mapping = b.mapping)
    (run : moveIps tx debit credit cached L = .ok c L') (a : Address) :
    (L' a).balance.mapping = (L a).balance.mapping := by
  rcases moveIps_eq_ok.mp run with ⟨s, V, t, b, M, -, -, -, -, loop, -, rfl⟩
  have perm := Platform.items_perm ((L s).balance.delegatedIps.joints V)
  have distinct := (perm.map Prod.fst).nodup_iff.mpr ((L s).balance.delegatedIps.nodup_joints V)
  have reclaimed := reclaim_spec distinct loop
  have sender : b.mapping = (L s).balance.mapping := by
    rw [Balance.mapping, reclaimed.mapServer, reclaimed.locator]
    rfl
  have looped (a : Address) : (M a).balance.mapping = (L a).balance.mapping := by
    have kept := reclaimed.kept a
    rw [Balance.mapping, kept.1.mapServer, kept.1.locator]
    rfl
  have written := settle_writtenBack M s t (debit t V) (credit s V) b
  by_cases first : a = s
  · subst first
    rw [written.sender, debits, sender]
  · by_cases second : a = t
    · subst second
      rw [written.holder first]
      exact (credits s V _).trans (looped a)
    · rw [written.other a first second, looped a]

omit [IPSet S] in
theorem setMapping_mapping {L L' : Ledger S} {tx : Transaction}
    {set : Balance S → List Bytes → Except PyExc (Balance S)} {m : Mapping}
    (sets : ∀ b b', set b tx.metadata.elements = .ok b' → b'.mapping = m)
    (run : setMapping tx set L = .ok () L') : ∃ s, tx.origin = some s ∧ ∀ a,
      (L' a).balance.mapping = if a = s then m else (L a).balance.mapping := by
  rcases setMapping_eq_ok.mp run with ⟨s, b, signed, done, rfl⟩
  refine ⟨s, by rw [Transaction.origin, signed]; rfl, ?_⟩
  intro a
  by_cases same : a = s
  · rw [same, Function.update_self, if_pos rfl]
    exact sets _ _ done
  · rw [Function.update_of_ne same, if_neg same]

theorem applyTransaction_mapping {L L' : Ledger S} {tx : Transaction} {cached : Cached}
    {r : Bool × Cached} (run : applyTransaction tx cached L = .ok r L') (a : Address) :
    (L' a).balance.mapping = latest (announcementsOf a [tx]) (L a).balance.mapping := by
  rcases applyTransaction_eq_ok.mp run with ⟨⟨s, V, valid⟩, -, done⟩
  have signed : tx.origin = some s := by
    rw [Transaction.origin, valid.signed]
    rfl
  have listed : announcementsOf a [tx] = if a = s then tx.announcement.toList else [] := by
    by_cases same : a = s
    · rw [if_pos same, announcementsOf, sentBy, same, List.filter_cons_of_pos (by simp [signed])]
      cases said : tx.announcement <;> simp [said]
    · have other : ¬ s = a := fun equal => same equal.symm
      rw [if_neg same, announcementsOf, sentBy, List.filter_cons_of_neg (by simp [signed, other])]
      rfl
  have silent (low : tx.announcement = none) :
      latest (announcementsOf a [tx]) (L a).balance.mapping = (L a).balance.mapping := by
    rw [listed, low]
    split <;> rfl
  have announced {m : Mapping} (said : tx.announcement = some m) :
      latest (announcementsOf a [tx]) (L a).balance.mapping =
        if a = s then m else (L a).balance.mapping := by
    rw [listed, said]
    split <;> rfl
  have mapped {set : Balance S → List Bytes → Except PyExc (Balance S)}
      (sets : ∀ b b', set b tx.metadata.elements = .ok b' → tx.announcement = some b'.mapping)
      (run : (setMapping tx set >>= fun _ => pure cached) L = .ok r.2 L') :
      (L' a).balance.mapping = latest (announcementsOf a [tx]) (L a).balance.mapping := by
    rcases bind_eq_ok.mp run with ⟨_, M, set, same⟩
    cases same
    rcases setMapping_eq_ok.mp set with ⟨s', b, signed', done', -⟩
    have said := sets _ _ done'
    have fixed (b₁ b₂ : Balance S) (again : _) : b₂.mapping = b.mapping :=
      Option.some.inj ((sets b₁ b₂ again).symm.trans said)
    rcases setMapping_mapping fixed set with ⟨s'', origin, result⟩
    rw [signed] at origin
    cases origin
    rw [result a, announced said]
  rw [perform] at done
  split at done
  · rename_i category
    rw [silent (by rw [Transaction.announcement, if_neg (by omega), if_neg (by omega)])]
    refine moveIps_mapping ?_ ?_ done a
    · intro _ _ _
      rfl
    · intro _ _ _
      rfl
  · split at done
    · rename_i category
      rw [silent (by rw [Transaction.announcement, if_neg (by omega), if_neg (by omega)])]
      refine moveIps_mapping ?_ ?_ done a
      · intro _ _ _
        rfl
      · intro _ _ _
        rfl
    · split at done
      · rename_i category
        apply mapped ?_ done
        intro b b' set
        rcases except_bind_eq_ok.mp set with ⟨servers, read, result⟩
        cases result
        rw [Transaction.announcement, if_pos category, read]
        rfl
      · split at done
        · rename_i other category
          apply mapped ?_ done
          intro b b' set
          rcases except_bind_eq_ok.mp set with ⟨dict, read, result⟩
          cases result
          rw [Transaction.announcement, if_neg other, if_pos category, read]
          rfl
        · have := valid.category
          omega

theorem applyTransactions_mapping {txs : List Transaction} {L L' : Ledger S} {cached c : Cached}
    (run : applyTransactions txs cached L = .ok c L') (a : Address) :
    (L' a).balance.mapping = latest (announcementsOf a txs) (L a).balance.mapping := by
  induction txs generalizing L cached with
  | nil =>
      cases run
      rfl
  | cons tx txs ih =>
      rcases bind_eq_ok.mp run with ⟨r, M, applied, rest⟩
      rw [ih rest, applyTransaction_mapping applied a, ← latest_append, ← announcementsOf_append]
      rfl

def Ledger.Unmapped (L : Ledger S) : Prop := ∀ a, (L a).balance.mapping = .none

theorem unmapped_loadAlloc {entries : List (Bytes × Option (List IPNetwork))} {s t : State S}
    {rows result : Cached} (unmapped : Ledger.Unmapped s.account)
    (loaded : loadAlloc entries s rows = .ok (t, result)) : Ledger.Unmapped t.account := by
  induction entries generalizing s rows with
  | nil =>
      cases loaded
      exact unmapped
  | cons head tail ih =>
      rcases head with ⟨addr, data⟩
      rcases except_bind_eq_ok.mp loaded with ⟨a, -, rest⟩
      cases data with
      | none => exact ih unmapped rest
      | some ownIps =>
          refine ih ?_ rest
          intro b
          rw [State.setBalance, State.account_setParam]
          by_cases same : b = a
          · rw [same, Function.update_self]
            rfl
          · rw [Function.update_of_ne same]
            exact unmapped b

variable {R : Type} [Radix R Address] [TrieRoot] [Poststate] [StateRoot S]

theorem Chain.Reachable.mapping {g : GenesisData} {blocks : List Block} {c : Chain S R}
    (reachable : c.Reachable g blocks) (a : Address) :
    (c.state.account a).balance.mapping = standing (transactionsOf blocks) a := by
  have kept := reachable.invariant (P := fun blocks c => ∀ a,
    (c.state.account a).balance.mapping = standing (transactionsOf blocks) a)
  refine kept ?_ ?_ ?_ a
  · intro c built a
    rcases except_bind_eq_ok.mp built with ⟨⟨s, rows⟩, genesis, -⟩
    rcases Chain.init_ok (R := R) genesis with ⟨c', started, rfl, -⟩
    rw [built] at started
    cases started
    rcases genesis_account genesis with ⟨t, loaded, same, -⟩
    rw [same]
    exact unmapped_loadAlloc (fun _ => rfl) loaded a
  · intro blocks c block s t p _ ih alike applied a
    rcases applyBlock_eq_ok.mp applied with ⟨-, cached, u, loop, rfl, -⟩
    have ledger := (simulates_applyTransactions _ _).ok loop
    have step := applyTransactions_mapping ledger a
    rw [alike.account, ih a, standing, ← latest_append, ← announcementsOf_append] at step
    rw [standing, transactionsOf, List.flatMap_append, List.flatMap_singleton]
    exact step
  · intro blocks c s queue ih alike a
    rw [alike.account]
    exact ih a

end Announcements

def Mapping.Numbered (m : Mapping) : Prop :=
  ∀ row ∈ m.locator.entries, ∃ priority weight, row.2 = (some priority, some weight)

theorem numbered_insert_all {ips : List IPNetwork} {l : Option Nat × Option Nat}
    (pair : ips ≠ [] → ∃ priority weight, l = (some priority, some weight)) :
    Mapping.Numbered ⟨∅, ips.foldr (fun ip dict => dict.insert ip l) ∅⟩ := by
  rintro ⟨ip, value⟩ member
  have found := AList.mem_lookup_iff.mpr member
  rw [lookup_insert_all] at found
  split at found
  · rename_i listed
    rcases pair (List.ne_nil_of_mem listed) with ⟨priority, weight, rfl⟩
    exact ⟨priority, weight, (Option.some.inj found).symm⟩
  · cases found

theorem locators_numbered {items : List Bytes} {ips : List IPNetwork} {l : Option Nat × Option Nat}
    {dict : AList fun _ : IPNetwork => Option Nat × Option Nat}
    (pair : ips ≠ [] → ∃ priority weight, l = (some priority, some weight))
    (read : Balance.locators ips l items = .ok dict) : Mapping.Numbered ⟨∅, dict⟩ := by
  induction length : items.length using Nat.strong_induction_on generalizing items ips l with
  | _ n ih =>
      rcases items with _ | ⟨afi, _ | ⟨ip, _ | ⟨priority, _ | ⟨weight, rest⟩⟩⟩⟩ <;>
        rw [Balance.locators] at read
      · cases read
        exact numbered_insert_all pair
      · rcases except_bind_eq_ok.mp read with ⟨_, -, rest⟩
        cases rest
      · rcases except_bind_eq_ok.mp read with ⟨_, -, rest⟩
        rcases except_bind_eq_ok.mp rest with ⟨_, -, rest⟩
        cases rest
      · rcases except_bind_eq_ok.mp read with ⟨_, -, rest⟩
        rcases except_bind_eq_ok.mp rest with ⟨_, -, rest⟩
        rcases except_bind_eq_ok.mp rest with ⟨_, -, rest⟩
        cases rest
      · rcases except_bind_eq_ok.mp read with ⟨_, -, more⟩
        rcases except_bind_eq_ok.mp more with ⟨_, -, more⟩
        rcases except_bind_eq_ok.mp more with ⟨p, -, more⟩
        rcases except_bind_eq_ok.mp more with ⟨w, -, more⟩
        refine ih rest.length ?_ (fun _ => ⟨p, w, rfl⟩) more rfl
        rw [← length]
        simp only [List.length_cons]
        omega

theorem Mapping.numbered_none : Mapping.none.Numbered := by
  intro row member
  cases member

theorem Transaction.numbered_announcement {tx : Transaction} {m : Mapping}
    (said : tx.announcement = some m) : m.Numbered := by
  rw [Transaction.announcement] at said
  split at said
  · rcases Option.map_eq_some_iff.mp said with ⟨servers, -, rfl⟩
    intro row member
    cases member
  · split at said
    · rcases Option.map_eq_some_iff.mp said with ⟨dict, found, rfl⟩
      cases read : Balance.locators [] (none, none) tx.metadata.elements with
      | error e =>
          rw [read] at found
          cases found
      | ok dict' =>
          rw [read] at found
          cases found
          exact locators_numbered (fun absent => absurd rfl absent) read
    · cases said

section Answers

variable [Platform]

theorem numbered_standing (txs : List Transaction) (a : Address) : (standing txs a).Numbered := by
  rw [standing, latest]
  cases last : (announcementsOf a txs).getLast? with
  | none => exact Mapping.numbered_none
  | some m =>
      rcases List.mem_filterMap.mp (List.mem_of_getLast? last) with ⟨tx, -, said⟩
      exact Transaction.numbered_announcement said

def recordOfRow (row : Sigma fun _ : IPNetwork => Option Nat × Option Nat) : LocatorRecord :=
  { priority := row.2.1.getD 0, weight := row.2.2.getD 0, locator := some row.1 }

/-- What a query is answered with: the map servers of the account that holds the address, else its
locators, else nothing. -/
inductive Tells (m : Mapping) (x : IPAddress) (nonce : Nat) : Option Bytes → Prop
  | servers (info : List IPNetwork) (present : m.mapServer ≠ ∅)
      (listed : info.Perm m.mapServer.keys) :
      Tells m x nonce (Response.toBytes ⟨nonce, .mapServers info⟩).toOption
  | locators (records : List LocatorRecord) (absent : m.mapServer = ∅) (present : m.locator ≠ ∅)
      (listed : records.Perm (m.locator.entries.map recordOfRow)) :
      Tells m x nonce (Response.toBytes ⟨nonce, .mapReplyRecord
        { eidPrefix := some (IPNetwork.ofAddress x), locatorRecords := records }⟩).toOption
  | nothing (absent : m.mapServer = ∅) (absent' : m.locator = ∅) : Tells m x nonce none

variable {S : Type}

omit [Platform] in
theorem mapM_locatorRecord {rows : List (IPNetwork × (Option Nat × Option Nat))}
    (numbered : ∀ row ∈ rows, ∃ priority weight, row.2 = (some priority, some weight)) :
    (rows.mapM fun row => locatorRecord row.1 row.2) =
      .ok (rows.map fun row => recordOfRow ⟨row.1, row.2⟩) := by
  induction rows with
  | nil => rfl
  | cons row rest ih =>
      rcases List.forall_mem_cons.mp numbered with ⟨⟨priority, weight, same⟩, others⟩
      rcases row with ⟨key, pair⟩
      cases same
      rw [List.mapM_cons, ih others]
      rfl

omit [Platform] in
theorem empty_of_length {β : Type} {d : AList fun _ : IPNetwork => β} (none : ¬ d.entries.length > 0) :
    d = ∅ := by
  have nil : d.entries = [] := List.length_eq_zero_iff.mp (by omega)
  exact AList.ext nil

omit [Platform] in
theorem ne_empty_of_length {β : Type} {d : AList fun _ : IPNetwork => β}
    (some : d.entries.length > 0) : d ≠ ∅ := by
  rintro rfl
  exact absurd some (Nat.lt_irrefl 0)

theorem items_pairs {β : Type} (d : AList fun _ : IPNetwork => β) :
    (Platform.items (d.entries.map fun row => (row.1, row.2))).Perm
      (d.entries.map fun row => (row.1, row.2)) := Platform.items_perm _

theorem answer_eq {b : Balance S} {x : IPAddress} {info : Option Info} (told : b.info x = .ok info)
    (nonce : Nat) : (b.answer x nonce).toOption.join =
      info.bind fun info => (Response.toBytes ⟨nonce, info⟩).toOption := by
  rw [Balance.answer, told]
  cases info with
  | none => rfl
  | some info =>
      change (Response.toBytes ⟨nonce, info⟩ >>= fun data => pure (some data)).toOption.join = _
      rw [Option.bind_some]
      cases Response.toBytes ⟨nonce, info⟩ <;> rfl

theorem tells_answer (b : Balance S) (x : IPAddress) (nonce : Nat) (numbered : b.mapping.Numbered) :
    Tells b.mapping x nonce (b.answer x nonce).toOption.join := by
  by_cases present : b.mapServer.entries.length > 0
  · rw [answer_eq (by rw [Balance.info, if_pos present])]
    have keys := (items_pairs b.mapServer).map Prod.fst
    rw [List.map_map] at keys
    exact .servers _ (ne_empty_of_length present) keys
  · by_cases present' : b.locator.entries.length > 0
    · have rows := items_pairs b.locator
      have numbered' : ∀ row ∈ Platform.items (b.locator.entries.map fun row => (row.1, row.2)),
          ∃ priority weight, row.2 = (some priority, some weight) := by
        intro row member
        rcases List.mem_map.mp (rows.mem_iff.mp member) with ⟨row', listed, rfl⟩
        exact numbered row' listed
      have records := rows.map fun row => recordOfRow ⟨row.1, row.2⟩
      rw [List.map_map] at records
      rw [answer_eq (by
        rw [Balance.info, if_neg present, if_pos present', mapM_locatorRecord numbered']
        rfl)]
      exact .locators _ (empty_of_length present) (ne_empty_of_length present') records
    · rw [answer_eq (by rw [Balance.info, if_neg present, if_neg present'])]
      exact .nothing (empty_of_length present) (empty_of_length present')

variable [IPSet S] {R : Type} [Radix R Address]

def Service.Undisturbed (svc svc' : Service S R) : Prop :=
  ∃ s, svc.chain.state.Alike s ∧ svc' = { svc with chain := { svc.chain with state := s } }

theorem Service.queryEid_known {svc : Service S R} {x : IPAddress} {h : Address}
    (known : svc.chain.getAddrFromIp x = .ok h) (nonce : Nat) : ∃ svc', queryEid x nonce svc =
      .ok ((svc.chain.state.account h).balance.answer x nonce).toOption.join svc' ∧
        svc.Undisturbed svc' := by
  refine ⟨{ svc with chain := { svc.chain with state := (svc.chain.state.getBalance h).2 } }, ?_,
    _, svc.chain.state.alike_read h, rfl⟩
  have run : reply x nonce svc =
      (lift ((svc.chain.state.getBalance h).1.answer x nonce) : EStateM PyExc (Service S R) _)
        { svc with chain := { svc.chain with state := (svc.chain.state.getBalance h).2 } } := by
    change (lift (svc.chain.getAddrFromIp x) >>= _) svc = _
    rw [known]
    rfl
  rw [queryEid, run, State.getBalance_fst]
  cases (svc.chain.state.account h).balance.answer x nonce <;> rfl

theorem Service.queryEid_unknown {svc : Service S R} {x : IPAddress} {e : PyExc}
    (unknown : svc.chain.getAddrFromIp x = .error e) (nonce : Nat) :
    queryEid x nonce svc = .ok none svc := by
  have run : reply x nonce svc = .error e svc := by
    change (lift (svc.chain.getAddrFromIp x) >>= _) svc = _
    rw [unknown]
    rfl
  rw [queryEid, run]

structure Records.Confined (G : Set IPAddress) (m : Records R) : Prop where
  own : ∀ a, m.book.registry.own a ⊆ G
  rows : ∀ n d, Radix.exact m.tree n = some d → n.addresses ⊆ G

theorem Records.Confined.enter {G : Set IPAddress} {m : Records R} {tx : Transaction} {s : Address}
    {V : IPNetwork} (accepts : m.book.Accepts tx s V) (confined : m.Confined G) :
    (m.enter tx).Confined G := by
  have added (t : Address) (inside : V.addresses ⊆ G) (n : IPNetwork) (d : Address)
      (stored : Radix.exact (Radix.add m.tree V t) n = some d) : n.addresses ⊆ G := by
    rw [Radix.exact_add] at stored
    split at stored
    · rename_i same
      intro x member
      exact inside (IPNetwork.mem_of_cidr_eq same member)
    · exact confined.rows n d stored
  rcases Records.enter_cases accepts with ⟨t, category, -, entered⟩ | ⟨t, category, -, entered⟩ |
    ⟨-, entered⟩ <;> rw [entered]
  · have inside := (accepts.owned (Or.inl category)).trans (confined.own s)
    refine ⟨?_, added t inside⟩
    intro a x held
    rw [Registry.mem_own_transfer] at held
    split at held
    · exact confined.own s held.1
    · rcases held with before | ⟨-, moved⟩
      · exact confined.own a before
      · exact inside moved
  · have inside := (accepts.owned (Or.inr category)).trans (confined.own s)
    exact ⟨confined.own, added t inside⟩
  · exact ⟨confined.own, confined.rows⟩

variable [TrieRoot] [Poststate] [StateRoot S] {g : GenesisData} {s₀ : State S} {rows : Cached}
  {blocks : List Block}

/-- The addresses that the genesis lists for somebody. -/
def GenesisData.space (g : GenesisData) : Set IPAddress := {x | ∃ a ip, Lists g.alloc a ip ∧ x ∈ ip}

omit [TrieRoot] [Poststate] in
theorem confined_genesis (genesis : stateFromGenesisDeclaration g = .ok (s₀, rows)) :
    (genesisRecords s₀ rows : Records R).Confined g.space where
  own a x held := by
    rcases genesis_owned genesis held with ⟨ip, lists, inside⟩
    exact ⟨a, ip, lists, inside⟩
  rows n d stored x inside := by
    rcases (genesis_tree (R := R) genesis).1 n d stored with ⟨ip, cidr, lists⟩
    exact ⟨d, ip, lists, IPNetwork.mem_of_cidr_eq cidr inside⟩

theorem Chain.Reachable.unknown {c : Chain S R} (reachable : c.Reachable g blocks)
    (genesis : stateFromGenesisDeclaration g = .ok (s₀, rows))
    (spelled : ∀ block ∈ blocks, block.Spelled) {x : IPAddress} (outside : x ∉ g.space) :
    ∃ e, c.getAddrFromIp x = .error e := by
  have recorded := reachable.recorded genesis spelled
  have always : (genesisRecords s₀ rows : Records R).Throughout (fun _ _ => True)
      (blocks.flatMap Block.transactions) := fun _ _ _ _ => trivial
  have confined := Records.preserved (P := fun m : Records R => m.Confined g.space)
    (fun m tx s V accepts _ confined => confined.enter accepts) recorded.accepted always
    (confined_genesis genesis)
  cases answer : c.getAddrFromIp x with
  | error e => exact ⟨e, rfl⟩
  | ok a =>
      have found := getAddrFromIp_eq_ok.mp answer
      rw [Radix.lookup_congr recorded.tree] at found
      rcases (Radix.lookup_eq_some _ x a).mp found with ⟨n, covers⟩
      exact absurd (confined.rows n a covers.stored covers.inside) outside

theorem Chain.Reachable.holder {c : Chain S R} (reachable : c.Reachable g blocks)
    (genesis : stateFromGenesisDeclaration g = .ok (s₀, rows)) (disjoint : g.Disjoint)
    (spelled : ∀ block ∈ blocks, block.Spelled)
    (settles : (genesisRecords s₀ rows : Records R).Throughout Settles (transactionsOf blocks))
    {x : IPAddress} {h : Address} (holds : c.state.account.registry.Holds x h) :
    c.getAddrFromIp x = .ok h := by
  have recorded := reachable.recorded genesis spelled
  have faithful := Records.preserved
    (fun m tx s V accepts settles faithful => (faithful_enter_iff accepts faithful).mpr settles)
    recorded.accepted settles (faithful_genesis genesis disjoint)
  have same : c.state.account.registry = _ := congrArg Book.registry recorded.book
  rw [same] at holds
  rw [getAddrFromIp_eq_ok, Radix.lookup_congr recorded.tree]
  exact faithful.tracks x h holds

structure Mapping.Fits (m : Mapping) (nonce : Nat) : Prop where
  nonce : nonce < 2 ^ 64
  servers : m.mapServer.entries.length < 2 ^ 8
  locators : m.mapServer = ∅ → m.locator.entries.length < 2 ^ 8 ∧
    ∀ row ∈ m.locator.entries, (recordOfRow row).InRange

omit [TrieRoot] [Poststate] [StateRoot S] [IPSet S] [Radix R Address] [Platform] in
theorem toBytes_eq_none {response : Response} :
    response.toBytes.toOption = none ↔ ¬ response.InRange := by
  rw [← response.toBytes_ok_iff]
  cases response.toBytes with
  | ok data => simp [Except.toOption]
  | error e => simp [Except.toOption]

omit [TrieRoot] [Poststate] [StateRoot S] [IPSet S] [Radix R Address] [Platform] in
theorem Tells.silent_iff {m : Mapping} {x : IPAddress} {nonce : Nat} {out : Option Bytes}
    (tells : Tells m x nonce out) : out = none ↔ m = .none ∨ ¬ m.Fits nonce := by
  cases tells with
  | servers info present listed =>
      have told : m ≠ .none := by
        rintro rfl
        exact present rfl
      have length : info.length = m.mapServer.entries.length := by
        rw [listed.length_eq, AList.keys, List.keys, List.length_map]
      rw [toBytes_eq_none, or_iff_right told, not_iff_not, Response.inRange_iff]
      constructor
      · rintro ⟨small, few⟩
        exact ⟨small, length ▸ few, fun absent => absurd absent present⟩
      · rintro ⟨small, few, -⟩
        exact ⟨small, show info.length < 2 ^ 8 from length ▸ few⟩
  | locators records absent present listed =>
      have told : m ≠ .none := by
        rintro rfl
        exact present rfl
      have length : records.length = m.locator.entries.length := by
        rw [listed.length_eq, List.length_map]
      have same : (∀ record ∈ records, record.InRange) ↔
          ∀ row ∈ m.locator.entries, (recordOfRow row).InRange := by
        constructor
        · intro all row stored
          exact all _ (listed.mem_iff.mpr (List.mem_map_of_mem stored))
        · intro all record member
          rcases List.mem_map.mp (listed.mem_iff.mp member) with ⟨row, stored, rfl⟩
          exact all row stored
      rw [toBytes_eq_none, or_iff_right told, not_iff_not, Response.inRange_iff]
      constructor
      · rintro ⟨small, record⟩
        refine ⟨small, ?_, fun _ => ⟨length ▸ record.count, same.mp record.locatorRecords⟩⟩
        rw [absent]
        exact Nat.two_pow_pos 8
      · rintro ⟨small, -, fits⟩
        rcases fits absent with ⟨few, numbers⟩
        exact ⟨small, show 24 * 60 < 2 ^ 32 by decide, Nat.two_pow_pos 3, Nat.two_pow_pos 12,
          Option.some_ne_none _, length ▸ few, same.mpr numbers⟩
  | nothing absent absent' =>
      refine iff_of_true rfl (Or.inl ?_)
      rcases m with ⟨servers, dict⟩
      cases absent
      cases absent'
      rfl

omit [TrieRoot] [Poststate] [StateRoot S] in
theorem Service.answerQuery_iff {svc svc' : Service S R} {x : IPAddress} {nonce : Nat}
    {out : Option Bytes} (run : queryEid x nonce svc = .ok out svc') :
    (∃ e, answerQuery (some (nonce, x)) svc = .error e svc') ↔ out = none := by
  have program : answerQuery (some (nonce, x)) svc = (do
      let sent ← lift (Oor.send out)
      return some sent : EStateM PyExc (Service S R) (Option Bytes)) svc' := by
    rw [answerQuery, bind_run, run]
  rw [program]
  cases out with
  | none => exact iff_of_true ⟨_, rfl⟩ rfl
  | some data =>
      refine iff_of_false ?_ (Option.some_ne_none data)
      rintro ⟨e, raises⟩
      cases raises

/-- In every chain whose transactions settled their networks, a query for an address is answered
with the last announcement of the account that holds it, and the main loop ends at the query if
there is none or it does not fit into the reply. It also ends at every query for an address that
was never given to anybody. No query changes the chain. -/
theorem queries_answered (genesis : stateFromGenesisDeclaration g = .ok (s₀, rows))
    (disjoint : g.Disjoint) {svc : Service S R} (reachable : svc.chain.Reachable g blocks)
    (spelled : ∀ block ∈ blocks, block.Spelled)
    (settles : (genesisRecords s₀ rows : Records R).Throughout Settles (transactionsOf blocks))
    (x : IPAddress) (nonce : Nat) : ∃ out svc', Service.queryEid x nonce svc = .ok out svc' ∧
      svc.Undisturbed svc' ∧
      (∀ h, svc.chain.state.account.registry.Holds x h →
        Tells (standing (transactionsOf blocks) h) x nonce out ∧
          ((∃ e, Service.answerQuery (some (nonce, x)) svc = .error e svc') ↔
            standing (transactionsOf blocks) h = .none ∨
              ¬ (standing (transactionsOf blocks) h).Fits nonce)) ∧
      (x ∉ g.space → ∃ e, Service.answerQuery (some (nonce, x)) svc = .error e svc') := by
  cases answer : svc.chain.getAddrFromIp x with
  | ok a =>
      rcases Service.queryEid_known answer nonce with ⟨svc', run, undisturbed⟩
      refine ⟨_, svc', run, undisturbed, ?_, ?_⟩
      · intro h holds
        have same := reachable.holder genesis disjoint spelled settles holds
        rw [answer] at same
        cases same
        have mapping := reachable.mapping a
        have tells := tells_answer (svc.chain.state.account a).balance x nonce
          (mapping ▸ numbered_standing (transactionsOf blocks) a)
        rw [mapping] at tells
        refine ⟨tells, ?_⟩
        rw [Service.answerQuery_iff run]
        exact tells.silent_iff
      · intro outside
        rcases reachable.unknown genesis spelled outside with ⟨e, unknown⟩
        rw [answer] at unknown
        cases unknown
  | error e =>
      have run := Service.queryEid_unknown answer nonce
      refine ⟨none, svc, run, ⟨_, ⟨rfl, rfl, rfl, rfl⟩, rfl⟩, ?_, ?_⟩
      · intro h holds
        have same := reachable.holder genesis disjoint spelled settles holds
        rw [answer] at same
        cases same
      · intro _
        exact (Service.answerQuery_iff run).mpr rfl

end Answers

namespace Sample

def announcement : Transaction :=
  { move 3 alice bob 0 (net6 0 48) with toAddr := none, metadata := .list oneStored }

theorem announced_chain : ∃ (s : State AddressRanges) (rows : Cached)
    (c : Chain AddressRanges (PrefixTable Address)),
    stateFromGenesisDeclaration genesis6 = .ok (s, rows) ∧
      c.Reachable genesis6 [firstBlock [announcement]] ∧
      c.state.account.registry.Holds (net6 0 48).ip alice := by
  rcases start_of_passes (fun g => decide ((g.1.getNonce alice).1 = 0) &&
    RunPasses (applyTransactions [announcement] ∅ g.1) fun _ t => owns t alice (net6 0 48) &&
      decide ((t.getBalance alice).1.delegatedIps.keys = [])) (by decide) with
    ⟨s, rows, built, ⟨c, reachable, rfl, tree⟩, based, passed⟩
  simp only [Bool.and_eq_true, decide_eq_true_eq] at passed
  rcases passed with ⟨next, passed⟩
  rcases runPasses_iff.mp passed with ⟨cached, u, loop, passed⟩
  simp only [Bool.and_eq_true, decide_eq_true_eq] at passed
  rcases passed with ⟨owned, unlent⟩
  have accepts : c.state.account.book.Accepts announcement alice (net6 0 48) := by
    refine ⟨rfl, by decide, ?_, by decide, by decide, ?_⟩
    · rw [State.getNonce_fst] at next
      exact next
    · rintro (moves | moves) <;> cases moves
  rcases validateBlock_ok_iff.mpr ⟨⟨alice, rfl, by decide⟩, based [announcement],
    List.forall_mem_singleton.mpr ⟨alice, _, accepts⟩⟩ with ⟨v, validated⟩
  have applied := (applyBlock_eq_ok (p := c.patricia)).mpr
    ⟨based [announcement], cached, u, loop, rfl, rfl⟩
  rcases reachable.grow validated applied with ⟨c', grown, account, -⟩
  refine ⟨c.state, rows, c', built, grown, ?_⟩
  rw [account]
  have held := mem_of_owns owned _ (IPNetwork.ip_mem _)
  rw [State.getBalance_fst] at held
  refine Or.inr ⟨held, ?_⟩
  rintro b ⟨lent, present, -⟩
  refine unlent_of_empty unlent b lent ?_
  rw [State.getBalance_fst]
  exact present

theorem announcement_answered : ∃ (svc svc' : Service AddressRanges (PrefixTable Address))
    (out : Option Bytes),
    svc.chain.Reachable genesis6 [firstBlock [announcement]] ∧
      Service.queryEid (net6 0 48).ip 7 svc = .ok out svc' ∧
      Tells (standing [announcement] alice) (net6 0 48).ip 7 out := by
  rcases announced_chain with ⟨s, rows, c, built, reachable, holds⟩
  have silent : Settles (genesisRecords s rows : Records (PrefixTable Address)) announcement := by
    intro V t present
    have absent : announcement.row = none := rfl
    rw [absent] at present
    cases present
  have started : (⟨c, []⟩ : Service AddressRanges (PrefixTable Address)).chain.Reachable genesis6
      [firstBlock [announcement]] := reachable
  rcases queries_answered built disjoint_genesis6 started
    (List.forall_mem_singleton.mpr (Block.spelled_of_length le_rfl))
    (Records.throughout_cons.mpr ⟨silent, Records.throughout_nil⟩) (net6 0 48).ip 7 with
    ⟨out, svc', run, -, told, -⟩
  exact ⟨⟨c, []⟩, svc', out, reachable, run, (told alice holds).1⟩

end Sample

end IPchain
