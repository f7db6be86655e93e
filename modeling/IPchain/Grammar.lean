import IPchain.Genesis
import IPchain.Parser

/-! Files of the documented format, and the transactions that are written in them. -/

namespace IPchain

open Lib Platform

structure Record where
  category : Bytes
  toAddr : Bytes
  afi : Bytes
  frm : Bytes
  value : Bytes
  metadata : Option Bytes

namespace Record

def line (type : List Char) (data : Bytes) : Bytes := text type ++ 59 :: data

def lines (r : Record) : List Bytes :=
  [line ['c', 'a', 't', 'e', 'g', 'o', 'r', 'y'] r.category, line ['t', 'o'] r.toAddr,
    line ['a', 'f', 'i'] r.afi, line ['f', 'r', 'o', 'm'] r.frm,
    line ['v', 'a', 'l', 'u', 'e'] r.value] ++
  (r.metadata.map (line ['m', 'e', 't', 'a', 'd', 'a', 't', 'a'])).toList ++
  [line ['e', 'n', 'd'] []]

def fields (r : Record) : List Bytes :=
  [r.category, r.toAddr, r.afi, r.frm, r.value] ++ r.metadata.toList

def file (records : List Record) : Bytes := (records.flatMap lines).flatMap (· ++ [10])

/-- Semicolons and newlines are no data, and a record of category 2 or 3 has a line with
metadata, unlike the others. -/
structure Documented (r : Record) : Prop where
  plain : ∀ data ∈ r.fields, 59 ∉ data ∧ 10 ∉ data
  described : ∀ c, Parser.readCategory r.category = .ok c → (r.metadata.isSome ↔ c = 2 ∨ c = 3)

variable [Platform]

def mapServers : List Bytes → Option (List Item)
  | [] => some []
  | afi :: ip :: address :: rest => do
      let n ← (Parser.readAfi afi).toOption
      let a ← (Parser.readAddress address).toOption
      let items ← mapServers rest
      some (.int n :: .bytes ip :: .bytes a.bytes :: items)
  | _ => none

omit [Platform] in
def locators : List Bytes → Option (List Item)
  | [] => some []
  | afi :: ip :: priority :: weight :: rest => do
      let n ← (Parser.readAfi afi).toOption
      let p ← (parseInt priority).toOption
      let w ← (parseInt weight).toOption
      let items ← locators rest
      some (.int n :: .bytes ip :: .int p :: .int w :: items)
  | _ => none

def details (category : Int) : Option Bytes → Option RawMetadata
  | none => some (.bytes [])
  | some data =>
      if category = 2 then (mapServers (data.splitOn 44)).map .list
      else if category = 3 then (locators (data.splitOn 44)).map .list
      else none

def header (r : Record) : DataBuffer where
  category := (Parser.readCategory r.category).toOption
  toAddr := (Parser.readAddress r.toAddr).toOption
  afi := (Parser.readAfi r.afi).toOption
  frm := (Parser.readAddress r.frm).toOption
  value := some r.value
  metadata := none

def transaction (r : Record) : Option DataBuffer :=
  if r.header.complete then do
    let category ← r.header.category
    let metadata ← details category r.metadata
    some { r.header with metadata := some metadata }
  else none

/-- The first five lines parse, and the metadata does not or belongs to category 3. -/
def Spoiled (r : Record) : Prop :=
  r.header.complete ∧ ∃ c, r.header.category = some c ∧ (c = 3 ∨ details c r.metadata = none)

/-- The buffer when the line `end` comes. -/
def buffer (r : Record) : DataBuffer :=
  match r.metadata with
  | none => r.header
  | some data => finish (Parser.metadata data r.header)

def read (r : Record) : Option DataBuffer :=
  if r.buffer.complete then some r.buffer.filled else none

end Record

namespace Parser

variable [Platform]

omit [Platform] in
theorem finish_assign {α : Type} (read : Bytes → Except PyExc α) (set : DataBuffer → α → DataBuffer)
    (data : Bytes) (b : DataBuffer) :
    finish (assign read set data b) = ((read data).toOption.map (set b)).getD b := by
  rw [assign]
  cases read data with
  | ok a => rfl
  | error e => rfl

theorem readLine_handler {type : List Char} (handler : Handler) {data : Bytes}
    (known : typesDir (text type) = some handler) (open' : text type ≠ text ['e', 'n', 'd'])
    (name : 59 ∉ text type) (plain : 59 ∉ data) (s : DataBuffer × List DataBuffer) :
    readLine (Record.line type data) s = .ok (finish (handler data s.1), s.2) := by
  rw [readLine, Record.line, List.splitOn_append_cons_self_of_not_mem name,
    List.splitOn_eq_singleton plain]
  simp only [if_neg open', known]

theorem readLine_end (s : DataBuffer × List DataBuffer) :
    readLine (Record.line ['e', 'n', 'd'] []) s =
      .ok (.empty, if s.1.complete then s.2 ++ [s.1.filled] else s.2) := rfl

theorem readLines_cons {line : Bytes} {rest : List Bytes} {s t : DataBuffer × List DataBuffer}
    (first : readLine line s = .ok t) : readLines (line :: rest) s = readLines rest t := by
  rw [readLines, first]
  rfl

theorem readLines_append (first rest : List Bytes) (s : DataBuffer × List DataBuffer) :
    readLines (first ++ rest) s = readLines first s >>= readLines rest := by
  induction first generalizing s with
  | nil => rfl
  | cons line first ih =>
      rw [List.cons_append, readLines, readLines]
      cases readLine line s with
      | ok t => exact ih t
      | error e => rfl

theorem readLines_record {r : Record} (documented : r.Documented) (done : List DataBuffer) :
    readLines r.lines (.empty, done) = .ok (.empty, done ++ r.read.toList) := by
  have plain (data : Bytes) (field : data ∈ r.fields) : 59 ∉ data := (documented.plain data field).1
  have closes (b : DataBuffer) (rest : List DataBuffer) :
      readLines [Record.line ['e', 'n', 'd'] []] (b, rest) =
        .ok (.empty, if b.complete then rest ++ [b.filled] else rest) :=
    readLines_cons (readLine_end (b, rest))
  have described : readLines ((r.metadata.map
      (Record.line ['m', 'e', 't', 'a', 'd', 'a', 't', 'a'])).toList) (r.header, done) =
        .ok (r.buffer, done) := by
    rw [Record.buffer]
    cases present : r.metadata with
    | none => rfl
    | some data =>
        have field : data ∈ r.fields := by simp [Record.fields, present]
        exact readLines_cons (readLine_handler metadata rfl (by decide) (by decide)
          (plain data field) _)
  have header : readLines [Record.line ['c', 'a', 't', 'e', 'g', 'o', 'r', 'y'] r.category,
      Record.line ['t', 'o'] r.toAddr, Record.line ['a', 'f', 'i'] r.afi,
      Record.line ['f', 'r', 'o', 'm'] r.frm, Record.line ['v', 'a', 'l', 'u', 'e'] r.value]
      (.empty, done) = .ok (r.header, done) := by
    rw [readLines_cons (readLine_handler category rfl (by decide) (by decide)
        (plain _ (by simp [Record.fields])) _),
      readLines_cons (readLine_handler toAddr rfl (by decide) (by decide)
        (plain _ (by simp [Record.fields])) _),
      readLines_cons (readLine_handler afi rfl (by decide) (by decide)
        (plain _ (by simp [Record.fields])) _),
      readLines_cons (readLine_handler frm rfl (by decide) (by decide)
        (plain _ (by simp [Record.fields])) _),
      readLines_cons (readLine_handler value rfl (by decide) (by decide)
        (plain _ (by simp [Record.fields])) _)]
    simp only [category, toAddr, afi, frm, value, finish_assign, Record.header, DataBuffer.empty]
    cases (readCategory r.category).toOption <;> cases (readAddress r.toAddr).toOption <;>
      cases (readAfi r.afi).toOption <;> cases (readAddress r.frm).toOption <;> rfl
  calc
    readLines r.lines (.empty, done) = readLines [Record.line ['e', 'n', 'd'] []] (r.buffer, done) := by
      rw [Record.lines, readLines_append, readLines_append, header]
      exact congrArg (· >>= readLines [Record.line ['e', 'n', 'd'] []]) described
    _ = .ok (.empty, done ++ r.read.toList) := by
      rw [closes, Record.read]
      split
      · rfl
      · rw [Option.toList_none, List.append_nil]

theorem readLines_records {records : List Record} (documented : ∀ r ∈ records, r.Documented)
    (done : List DataBuffer) : readLines (records.flatMap Record.lines) (.empty, done) =
      .ok (.empty, done ++ records.filterMap Record.read) := by
  induction records generalizing done with
  | nil =>
      rw [List.filterMap_nil, List.append_nil]
      rfl
  | cons r rest ih =>
      obtain ⟨first, others⟩ := List.forall_mem_cons.mp documented
      rw [List.flatMap_cons, readLines_append, readLines_record first]
      change readLines (rest.flatMap Record.lines) (.empty, done ++ r.read.toList) = _
      rw [ih others, List.append_assoc]
      congr 3
      cases read : r.read with
      | none => rw [List.filterMap_cons_none read, Option.toList_none, List.nil_append]
      | some b => rw [List.filterMap_cons_some read, Option.toList_some, List.singleton_append]

omit [Platform] in
theorem splitOn_lines {lines : List Bytes} (plain : ∀ line ∈ lines, 10 ∉ line) :
    (lines.flatMap (· ++ [10])).splitOn 10 = lines ++ [[]] := by
  induction lines with
  | nil => rfl
  | cons line rest ih =>
      obtain ⟨first, others⟩ := List.forall_mem_cons.mp plain
      rw [List.flatMap_cons, List.append_assoc, List.singleton_append,
        List.splitOn_append_cons_self_of_not_mem first, ih others, List.cons_append]

omit [Platform] in
theorem fileLines_lines {lines : List Bytes} (plain : ∀ line ∈ lines, 10 ∉ line) :
    fileLines (lines.flatMap (· ++ [10])) = lines := by
  simp only [fileLines, splitOn_lines plain, List.getLast?_append, List.getLast?_singleton,
    Option.some_or, if_true, List.dropLast_concat]

omit [Platform] in
theorem plain_lines {r : Record} (documented : r.Documented) : ∀ line ∈ r.lines, 10 ∉ line := by
  have line {type : List Char} {data : Bytes} (name : 10 ∉ text type) (plain : 10 ∉ data) :
      10 ∉ Record.line type data := by
    rw [Record.line, List.mem_append, List.mem_cons, not_or, not_or]
    exact ⟨name, by decide, plain⟩
  have plain (data : Bytes) (field : data ∈ r.fields) : 10 ∉ data := (documented.plain data field).2
  intro row member
  simp only [Record.lines, List.mem_append, List.mem_cons, List.not_mem_nil, or_false,
    Option.mem_toList, Option.map_eq_some_iff] at member
  rcases member with ((rfl | rfl | rfl | rfl | rfl) | ⟨data, present, rfl⟩) | rfl
  · exact line (by decide) (plain _ (by simp [Record.fields]))
  · exact line (by decide) (plain _ (by simp [Record.fields]))
  · exact line (by decide) (plain _ (by simp [Record.fields]))
  · exact line (by decide) (plain _ (by simp [Record.fields]))
  · exact line (by decide) (plain _ (by simp [Record.fields]))
  · exact line (by decide) (plain _ (by simp [Record.fields, present]))
  · exact line (by decide) List.not_mem_nil

theorem readTransactions_file {records : List Record} (documented : ∀ r ∈ records, r.Documented)
    (p : Parser) : readTransactions (Record.file records) p =
      .ok ⟨p.transactions ++ records.filterMap Record.read⟩ := by
  have plain : ∀ line ∈ records.flatMap Record.lines, 10 ∉ line := by
    intro line member
    obtain ⟨r, listed, row⟩ := List.mem_flatMap.mp member
    exact plain_lines (documented r listed) line row
  rw [readTransactions, Record.file, fileLines_lines plain, readLines_records documented]
  rfl

omit [Platform] in
theorem getTxs_eq (n : Nat) (p : Parser) :
    p.getTxs n = (List.range n).map fun i => p.transactions[i]? := by
  induction n generalizing p with
  | zero => rfl
  | succ n ih =>
      obtain ⟨transactions⟩ := p
      rw [getTxs, ih, List.range_succ_eq_map, List.map_cons, List.map_map]
      cases transactions <;> rfl

omit [Platform] in
theorem readAfi_eq_ok {data : Bytes} {n : Int} (read : readAfi data = .ok n) :
    parseInt data = .ok n ∧ (n = 1 ∨ n = 2) := by
  obtain ⟨m, parsed, checked⟩ := except_bind_eq_ok.mp read
  split at checked
  · cases checked
  · rename_i known
    cases checked
    exact ⟨parsed, by omega⟩

theorem preserves_metadata (data : Bytes) :
    Preserves (fun b => { b with metadata := none }) (metadata data) := by
  have preserves_append (item : Item) :
      Preserves (fun b => { b with metadata := none }) (append item) := fun b => rfl
  have preserves_location (afi ip : Bytes) :
      Preserves (fun b => { b with metadata := none }) (appendLocation afi ip) := by
    apply Preserves.bind (Preserves.lift _)
    intro n
    apply Preserves.bind (preserves_append _)
    intro _
    exact Preserves.ite (preserves_append _) (Preserves.raised _)
  have preserves_servers (items : List Bytes) :
      Preserves (fun b => { b with metadata := none }) (appendMapServers items) := by
    fun_induction appendMapServers items with
    | case1 afi ip address rest ih =>
        apply Preserves.bind (preserves_location afi ip)
        intro _
        apply Preserves.bind (Preserves.lift _)
        intro a
        exact Preserves.bind (preserves_append _) fun _ => ih
    | case2 => exact Preserves.pure _
  have preserves_locators (items : List Bytes) :
      Preserves (fun b => { b with metadata := none }) (appendLocators items) := by
    rw [appendLocators.eq_def]
    split
    · exact Preserves.bind (preserves_location _ _) fun _ => Preserves.raised _
    · exact Preserves.pure _
  apply Preserves.bind (fun b => rfl)
  intro _
  apply Preserves.bind (fun b => rfl)
  intro b
  split
  · exact Preserves.raised _
  · exact Preserves.ite (Preserves.raised _) (preserves_servers _)
  · exact Preserves.ite (Preserves.raised _) (preserves_locators _)
  · exact Preserves.raised _

omit [Platform] in
theorem append_run (item : Item) {b : DataBuffer} {items : List Item}
    (listed : b.metadata = some (.list items)) :
    append item b = .ok () { b with metadata := some (.list (items ++ [item])) } := by
  cases b
  cases listed
  rfl

omit [Platform] in
theorem appendLocation_run {afi : Bytes} (ip : Bytes) {n : Int} (read : readAfi afi = .ok n)
    {b : DataBuffer} {items : List Item} (listed : b.metadata = some (.list items)) :
    appendLocation afi ip b =
      .ok () { b with metadata := some (.list (items ++ [.int n, .bytes ip])) } := by
  obtain ⟨parsed, known⟩ := readAfi_eq_ok read
  rw [appendLocation, parsed, lift_ok, bind_of_ok (pure_run n b),
    bind_of_ok (append_run (.int n) listed), if_pos known, append_run (.bytes ip) rfl,
    List.append_assoc, List.singleton_append]

omit [Platform] in
theorem toOption_eq_some {α : Type} {x : Except PyExc α} {a : α} :
    x.toOption = some a ↔ x = .ok a := by
  cases x <;> simp [Except.toOption]

theorem appendMapServers_run {data : List Bytes} {read : List Item}
    (parses : Record.mapServers data = some read) {b : DataBuffer} {items : List Item}
    (listed : b.metadata = some (.list items)) : appendMapServers data b =
      .ok () { b with metadata := some (.list (items ++ read)) } := by
  fun_induction Record.mapServers data generalizing read b items with
  | case1 =>
      cases parses
      rw [List.append_nil, ← listed]
      rfl
  | case2 afi ip address rest ih =>
      obtain ⟨n, family, parses⟩ := Option.bind_eq_some_iff.mp parses
      obtain ⟨a, holder, parses⟩ := Option.bind_eq_some_iff.mp parses
      obtain ⟨others, parsed, same⟩ := Option.bind_eq_some_iff.mp parses
      cases same
      rw [appendMapServers, bind_of_ok (appendLocation_run ip (toOption_eq_some.mp family) listed),
        toOption_eq_some.mp holder, lift_ok, bind_of_ok (pure_run a _),
        bind_of_ok (append_run (.bytes a.bytes) rfl), ih parsed rfl]
      simp only [List.append_assoc, List.cons_append, List.nil_append]
  | case3 => cases parses

theorem mapServers_length {data : List Bytes} {read : List Item}
    (parses : Record.mapServers data = some read) : data.length % 3 = 0 := by
  fun_induction Record.mapServers data generalizing read with
  | case1 => rfl
  | case2 afi ip address rest ih =>
      obtain ⟨n, -, parses⟩ := Option.bind_eq_some_iff.mp parses
      obtain ⟨a, -, parses⟩ := Option.bind_eq_some_iff.mp parses
      obtain ⟨others, parsed, -⟩ := Option.bind_eq_some_iff.mp parses
      have := ih parsed
      simp only [List.length_cons]
      omega
  | case3 => cases parses

omit [Platform] in
theorem appendLocation_short (afi ip : Bytes) {b : DataBuffer}
    (fresh : b.metadata = some (.list [])) :
    ∃ items, (finish (appendLocation afi ip b)).metadata = some (.list items) ∧
      items.length ≤ 2 := by
  rw [appendLocation]
  cases parseInt afi with
  | error e => exact ⟨[], fresh, Nat.zero_le 2⟩
  | ok n =>
      rw [lift_ok, bind_of_ok (pure_run n b), bind_of_ok (append_run (.int n) fresh)]
      split
      · rw [append_run (.bytes ip) rfl]
        exact ⟨_, rfl, by simp⟩
      · exact ⟨_, rfl, by simp⟩

omit [Platform] in
theorem appendLocators_short (data : List Bytes) {b : DataBuffer}
    (fresh : b.metadata = some (.list [])) :
    ∃ items, (finish (appendLocators data b)).metadata = some (.list items) ∧
      items.length ≤ 2 := by
  rw [appendLocators.eq_def]
  split
  · rename_i afi ip _ _ _
    have short := appendLocation_short afi ip fresh
    rw [bind_run]
    cases located : appendLocation afi ip b with
    | ok u b' =>
        rw [located] at short
        exact short
    | error e b' =>
        rw [located] at short
        exact short
  · exact ⟨[], fresh, Nat.zero_le 2⟩

omit [Platform] in
theorem locators_long {data : List Bytes} (present : data ≠ []) {read : List Item}
    (parses : Record.locators data = some read) : 4 ≤ read.length := by
  rw [Record.locators.eq_def] at parses
  split at parses
  · exact absurd rfl present
  · obtain ⟨n, -, parses⟩ := Option.bind_eq_some_iff.mp parses
    obtain ⟨p, -, parses⟩ := Option.bind_eq_some_iff.mp parses
    obtain ⟨w, -, parses⟩ := Option.bind_eq_some_iff.mp parses
    obtain ⟨others, -, same⟩ := Option.bind_eq_some_iff.mp parses
    cases same
    simp
  · cases parses

theorem metadata_two (data : Bytes) {b : DataBuffer} (known : b.category = some 2) :
    metadata data b =
      (if (data.splitOn 44).length % 3 ≠ 0 then
        raised ⟨.exception, "metadata of a transaction with category 2 is not multiple of 3"⟩
      else appendMapServers (data.splitOn 44)) { b with metadata := some (.list []) } := by
  cases b
  cases known
  rfl

theorem metadata_three (data : Bytes) {b : DataBuffer} (known : b.category = some 3) :
    metadata data b =
      (if (data.splitOn 44).length % 4 ≠ 0 then
        raised ⟨.exception, "metadata of a transaction with category 3 is not multiple of 4"⟩
      else appendLocators (data.splitOn 44)) { b with metadata := some (.list []) } := by
  cases b
  cases known
  rfl

end Parser

namespace Record

variable [Platform]

theorem buffer_eq (r : Record) : r.buffer = { r.header with metadata := r.buffer.metadata } := by
  have kept : { r.buffer with metadata := none } = r.header := by
    rw [buffer]
    split
    · rfl
    · exact Parser.preserves_metadata _ r.header
  rw [← kept]

theorem read_eq (r : Record) : r.read =
    if r.header.complete then
      some { r.header with metadata := some (r.buffer.metadata.getD (.bytes [])) }
    else none := by
  have complete : r.buffer.complete = r.header.complete := by rw [buffer_eq]; rfl
  rw [read, complete, DataBuffer.filled]
  split
  · rw [r.buffer_eq]
  · rfl

theorem buffer_servers {r : Record} (category : r.header.category = some 2) {data : Bytes}
    (described : r.metadata = some data) {items : List Item}
    (parses : mapServers (data.splitOn 44) = some items) :
    r.buffer.metadata = some (.list items) := by
  have whole := Parser.mapServers_length parses
  rw [buffer, described]
  simp only [Parser.metadata_two data category]
  rw [if_neg (not_not.mpr whole), Parser.appendMapServers_run parses rfl]
  rfl

theorem buffer_locators {r : Record} (category : r.header.category = some 3) {data : Bytes}
    (described : r.metadata = some data) :
    ∃ items, r.buffer.metadata = some (.list items) ∧ items.length ≤ 2 := by
  rw [buffer, described]
  simp only [Parser.metadata_three data category]
  split
  · exact ⟨[], rfl, Nat.zero_le 2⟩
  · exact Parser.appendLocators_short _ rfl

theorem read_eq_transaction_iff {r : Record} (documented : r.Documented) :
    r.read = r.transaction ↔ ¬ r.Spoiled := by
  rw [read_eq, transaction, Spoiled]
  cases complete : r.header.complete with
  | false => simp
  | true =>
      simp only [if_true, true_and]
      cases category : r.header.category with
      | none => simp [DataBuffer.complete, category] at complete
      | some c =>
          have read : Parser.readCategory r.category = .ok c := Parser.toOption_eq_some.mp category
          have described := documented.described c read
          simp only [Option.bind_eq_bind, Option.bind_some, Option.some.injEq, exists_eq_left']
          cases present : r.metadata with
          | none =>
              rw [present] at described
              have other : c ≠ 3 := by
                rintro rfl
                simp at described
              have unwritten : r.buffer.metadata = none := by
                rw [buffer, present]
                rfl
              simp [details, unwritten, other]
          | some data =>
              rw [present] at described
              rcases described.mp rfl with rfl | rfl
              · cases parses : mapServers (data.splitOn 44) with
                | none => simp [details, parses]
                | some items => simp [details, parses, buffer_servers category present parses]
              · obtain ⟨items, written, short⟩ := buffer_locators category present
                simp only [true_or, not_true, iff_false]
                cases parses : locators (data.splitOn 44) with
                | none => simp [details, parses]
                | some others =>
                    have long := Parser.locators_long (List.splitOn_ne_nil 44 data) parses
                    simp only [details, parses, written, Option.getD_some, if_true, Option.map_some,
                      Option.bind_some, Option.some.injEq, DataBuffer.mk.injEq, RawMetadata.list.injEq,
                      show ¬ (3 : Int) = 2 by decide, if_false]
                    rintro ⟨-, -, -, -, -, rfl⟩
                    omega

theorem read_of_transaction {r : Record} (described : r.transaction.isSome) : r.read.isSome := by
  rw [transaction] at described
  rw [read_eq]
  split at described
  · rename_i complete
    rw [if_pos complete]
    rfl
  · cases described

end Record

namespace Parser

theorem filterMap_eq_iff {α β : Type} {f g : α → Option β} {l : List α}
    (more : ∀ a ∈ l, (g a).isSome → (f a).isSome) :
    l.filterMap f = l.filterMap g ↔ ∀ a ∈ l, f a = g a := by
  have longer {l : List α} (more : ∀ a ∈ l, (g a).isSome → (f a).isSome) :
      (l.filterMap g).length ≤ (l.filterMap f).length := by
    rw [List.length_filterMap_eq_countP, List.length_filterMap_eq_countP]
    exact List.countP_mono_left more
  constructor
  · intro same
    induction l with
    | nil =>
        intro a member
        cases member
    | cons a rest ih =>
        obtain ⟨first, others⟩ := List.forall_mem_cons.mp more
        have lengths := longer others
        cases left : f a with
        | none =>
            cases right : g a with
            | none =>
                rw [List.filterMap_cons_none left, List.filterMap_cons_none right] at same
                exact List.forall_mem_cons.mpr ⟨by rw [left, right], ih others same⟩
            | some c =>
                rw [left, right] at first
                cases first rfl
        | some b =>
            cases right : g a with
            | none =>
                rw [List.filterMap_cons_some left, List.filterMap_cons_none right] at same
                have := congrArg List.length same
                rw [List.length_cons] at this
                omega
            | some c =>
                rw [List.filterMap_cons_some left, List.filterMap_cons_some right] at same
                obtain ⟨heads, tails⟩ := List.cons.inj same
                exact List.forall_mem_cons.mpr ⟨by rw [left, right, heads], ih others tails⟩
  · intro same
    exact List.filterMap_congr same

section Delivery

variable [Platform]

theorem delivers_iff {records : List Record} (documented : ∀ r ∈ records, r.Documented)
    (expected : List DataBuffer) :
    (∃ p, readTransactions (Record.file records) new = .ok p ∧
      ∀ n, p.getTxs n = (List.range n).map fun i => expected[i]?) ↔
      records.filterMap Record.read = expected := by
  rw [readTransactions_file documented]
  constructor
  · rintro ⟨p, parsed, delivers⟩
    cases parsed
    apply List.ext_getElem?
    intro i
    have calls := delivers (i + 1)
    rw [getTxs_eq] at calls
    exact List.map_inj_left.mp calls i (List.mem_range.mpr (Nat.lt_succ_self i))
  · rintro rfl
    exact ⟨_, rfl, fun n => getTxs_eq n _⟩

/-- The calls of `get_tx` deliver what the records say, in their order, unless one is spoiled. -/
theorem parser_accepts_grammar_iff {records : List Record}
    (documented : ∀ r ∈ records, r.Documented) :
    (∃ p, readTransactions (Record.file records) new = .ok p ∧
      ∀ n, p.getTxs n =
        (List.range n).map fun i => (records.filterMap Record.transaction)[i]?) ↔
      ∀ r ∈ records, ¬ r.Spoiled := by
  rw [delivers_iff documented, filterMap_eq_iff fun r _ => Record.read_of_transaction]
  constructor
  · intro same r member
    exact (Record.read_eq_transaction_iff (documented r member)).mp (same r member)
  · intro clear r member
    exact (Record.read_eq_transaction_iff (documented r member)).mpr (clear r member)

end Delivery

end Parser

namespace Sample

def mapping (category : Char) (metadata : List Char) (tail : Bytes) : Record where
  category := text [category]
  toAddr := encodeHex bob.bytes
  afi := text ['1']
  frm := encodeHex alice.bytes
  value := text ['1', '0', '.', '0', '.', '0', '.', '0', '/', '9']
  metadata := some (text (['1', ',', '1', '0', '.', '0', '.', '0', '.', '1', ','] ++ metadata) ++ tail)

def servers : Record := mapping '2' [] (encodeHex carol.bytes)

def locators : Record := mapping '3' ['1', ',', '1', '0', '0'] []

theorem servers_documented : servers.Documented :=
  ⟨by decide, fun c read => by
    have two : Parser.readCategory servers.category = .ok 2 := rfl
    rw [two] at read
    cases read
    decide⟩

theorem locators_documented : locators.Documented :=
  ⟨by decide, fun c read => by
    have three : Parser.readCategory locators.category = .ok 3 := rfl
    rw [three] at read
    cases read
    decide⟩

theorem servers_delivered : ∃ p, Parser.readTransactions (Record.file [servers]) Parser.new = .ok p ∧
    ∀ n, p.getTxs n =
      (List.range n).map fun i => ([servers].filterMap Record.transaction)[i]? := by
  apply (Parser.parser_accepts_grammar_iff (List.forall_mem_singleton.mpr servers_documented)).mpr
  intro r member
  cases List.mem_singleton.mp member
  rintro ⟨-, c, category, spoiled⟩
  have two : servers.header.category = some 2 := rfl
  rw [two] at category
  cases category
  rcases spoiled with three | none
  · cases three
  · have parses : (Record.details 2 servers.metadata).isSome = true := by decide
    rw [none] at parses
    cases parses

/-- The record comes out with the address family and the address of its locator alone. -/
theorem locators_cut_short :
    ¬ ∃ p, Parser.readTransactions (Record.file [locators]) Parser.new = .ok p ∧
      ∀ n, p.getTxs n =
        (List.range n).map fun i => ([locators].filterMap Record.transaction)[i]? := by
  have documented : ∀ r ∈ [locators], r.Documented := List.forall_mem_singleton.mpr locators_documented
  rw [Parser.delivers_iff documented,
    Parser.filterMap_eq_iff fun r _ => Record.read_of_transaction]
  intro same
  have spoiled : locators.Spoiled := ⟨by decide, 3, rfl, Or.inl rfl⟩
  exact (Record.read_eq_transaction_iff locators_documented).mp
    (same locators (List.mem_singleton_self _)) spoiled

example : locators.read.bind DataBuffer.metadata =
    some (.list [.int 1, .bytes (text ['1', '0', '.', '0', '.', '0', '.', '1'])]) := rfl

end Sample

end IPchain
