import Consent.Proofs.Legacy.Context
import Consent.Proofs.Store.Carried

/-! The app ids that rows by host are carried over with. A stored app id has 64 bits and one of an
origin has 32, so the higher bits are lost and rows whose app ids differ in these alone meet. -/

namespace Consent

open Text Host Log Store Legacy

/-- Whether a stored key is that of an origin with the app id `n`. -/
def Origin.IsKeyOfApp (key : String) (n : Nat) : Prop :=
  ∃ scheme host port attributes,
    key = (make scheme host port attributes).key ∧ attributes.appId.toNat = n

theorem Origin.Attributes.eq_iff {a b : Attributes} :
    a = b ↔ a.appId.toNat = b.appId.toNat ∧ a.inBrowser = b.inBrowser := by
  cases a
  cases b
  simp [UInt32.toNat_inj]

namespace Legacy

theorem HostTable.toNat_appIdOf (a : Int) : (appIdOf a).toNat = a.toNat % UInt32.size := by
  have hmax : (max a 0).toNat = a.toNat := by omega
  unfold appIdOf
  rw [hmax]
  exact UInt32.toNat_ofNat

/-- The row reads as `r`, and its stored app id as `a`. -/
structure HostTable.Reads (t : HostTable) (row : Int × List Cell) (r : Row) (a : Int) : Prop where
  readRow : t.readRow? row = some r
  readAppId : (t.cell row.2 "appId").readInteger? = some a

theorem HostTable.Reads.toNat_appId {t : HostTable} {row : Int × List Cell} {r : Row} {a : Int}
    (h : t.Reads row r a) : r.attributes.appId.toNat = a.toNat % UInt32.size := by
  have hrow := h.readRow
  simp only [readRow?, Option.bind_eq_bind, Option.bind_eq_some_iff, Option.some.injEq] at hrow
  obtain ⟨_, -, _, -, _, -, _, -, _, -, _, -, a', ha', _, -, rfl⟩ := hrow
  have hsame : a' = a := Option.some.inj (ha'.symm.trans h.readAppId)
  rw [hsame]
  exact toNat_appIdOf a

namespace Row

variable [SuffixList] {ι : Type} {ask : AskIndex ι} {now : Instant} {fields : List Field}
  {r r' : Row} {q q' : Record}

/-- A row can be carried over to the record, by an index that may have been asked before. -/
def Yields (ask : AskIndex ι) (now : Instant) (r : Row) (q : Record) : Prop :=
  ∃ fields resolver records,
    (expand ask now (some r) fields resolver).answer = .ok records ∧ q ∈ records

/-- The schemes and ports that a row is carried over to depend on its host name alone. -/
theorem exists_pairs (ask : AskIndex ι) (now : Instant) (host : String) (fields : List Field)
    (resolver : Resolver ι) :
    ∃ pairs, pairs ≠ [] ∧ ∀ row : Row, row.isDue now = true → isVerbatim row.host.toList = false →
      row.hostName = host → (expand ask now (some row) fields resolver).answer =
        .ok (pairs.map fun sp => row.recordAt (row.keyAt sp)) := by
  let visited := (Resolver.resolve ask host fields resolver).answer.toOption.getD []
  refine ⟨if visited.isEmpty then dualSchemes else visited, ?_, ?_⟩
  · split
    · simp [dualSchemes]
    · rename_i hne
      simpa using hne
  · intro row hdue hname hhost
    obtain ⟨hcheck, hlive⟩ := isDue_iff.mp hdue
    have hexpand := expand_of_name ask fields resolver hcheck hlive hname
    rw [hhost] at hexpand
    exact hexpand.answer

theorem Yields.isDue (h : r.Yields ask now q) : r.isDue now = true := by
  obtain ⟨fields, resolver, records, hanswer, hq⟩ := h
  by_contra hnot
  have hnone := (expand_of_not_isDue ask fields resolver (by simpa using hnot)).1
  rw [hanswer] at hnone
  have hempty : records = [] := hnone
  rw [hempty] at hq
  cases hq

theorem Yields.eq_recordAt (h : r.Yields ask now q) (hname : isVerbatim r.host.toList = false) :
    ∃ sp, q = r.recordAt (r.keyAt sp) := by
  have hdue := h.isDue
  obtain ⟨fields, resolver, records, hanswer, hq⟩ := h
  obtain ⟨pairs, -, hpairs⟩ := exists_pairs ask now r.hostName fields resolver
  have hrecords := Except.ok.inj (hanswer.symm.trans (hpairs r hdue hname rfl))
  rw [hrecords] at hq
  obtain ⟨sp, -, hsp⟩ := List.mem_map.mp hq
  exact ⟨sp, hsp.symm⟩

/-- Every record of a row with a host name has the app id that the row was read with. -/
theorem Yields.isKeyOfApp_iff (h : r.Yields ask now q) (hname : isVerbatim r.host.toList = false)
    {n : Nat} : Origin.IsKeyOfApp q.origin n ↔ n = r.attributes.appId.toNat := by
  obtain ⟨sp, hq⟩ := h.eq_recordAt hname
  have hkey : q.origin = (Origin.make sp.scheme r.hostName sp.port r.attributes).key := by
    rw [hq]
    rfl
  constructor
  · intro happ
    obtain ⟨scheme, host, port, attributes, hmake, hn⟩ := happ
    have hsame : attributes = r.attributes :=
      Origin.attributes_eq_of_key_make (hmake.symm.trans hkey)
    rw [← hn, hsame]
  · intro hn
    exact ⟨sp.scheme, r.hostName, sp.port, r.attributes, hkey, hn.symm⟩

theorem attributes_eq_of_yields (h : r.Yields ask now q) (h' : r'.Yields ask now q')
    (hname : isVerbatim r.host.toList = false) (hname' : isVerbatim r'.host.toList = false)
    (hkey : q.key = q'.key) : r.attributes = r'.attributes := by
  obtain ⟨sp, hq⟩ := h.eq_recordAt hname
  obtain ⟨sp', hq'⟩ := h'.eq_recordAt hname'
  have horigin : r.keyAt sp = r'.keyAt sp' := by
    have hfirst := congrArg Prod.fst hkey
    rw [hq, hq'] at hfirst
    exact hfirst
  exact Origin.attributes_eq_of_key_make horigin

/-- Two rows about one host and kind can be carried over to one key exactly if they are of one
isolation context after reading. -/
theorem exists_yields_iff (index : ι) (hname : isVerbatim r.host.toList = false)
    (hhost : r'.host = r.host) (hkind : r'.kind = r.kind) :
    (∃ q q', r.Yields ask now q ∧ r'.Yields ask now q' ∧ q.key = q'.key) ↔
      (r.isDue now = true ∧ r'.isDue now = true) ∧ r.attributes = r'.attributes := by
  have hname' : isVerbatim r'.host.toList = false := by rw [hhost]; exact hname
  constructor
  · intro hshared
    obtain ⟨q, q', hq, hq', hkey⟩ := hshared
    exact ⟨⟨hq.isDue, hq'.isDue⟩, attributes_eq_of_yields hq hq' hname hname' hkey⟩
  · intro hboth
    obtain ⟨⟨hdue, hdue'⟩, hattributes⟩ := hboth
    have hhostName : r'.hostName = r.hostName := by rw [hostName, hostName, hhost]
    obtain ⟨pairs, hne, hpairs⟩ := exists_pairs ask now r.hostName [] ⟨index, []⟩
    obtain ⟨sp, hsp⟩ := List.exists_mem_of_ne_nil pairs hne
    have hsame : r'.keyAt sp = r.keyAt sp := by
      rw [keyAt, keyAt, hhostName, hattributes]
    refine ⟨r.recordAt (r.keyAt sp), r'.recordAt (r'.keyAt sp), ?_, ?_, ?_⟩
    · exact ⟨[], _, _, hpairs r hdue hname rfl, List.mem_map_of_mem hsp⟩
    · exact ⟨[], _, _, hpairs r' hdue' hname' hhostName, List.mem_map_of_mem hsp⟩
    · simp [Record.key, recordAt, hsame, hkind]

theorem yields_of_mem_expandAll {resolver : Resolver ι} {rows : List Row}
    (h : q ∈ expandAll ask now fields resolver rows) : ∃ r ∈ rows, r.Yields ask now q := by
  induction rows generalizing resolver with
  | nil => cases h
  | cons row rest ih =>
    rw [expandAll] at h
    rcases List.mem_append.mp h with hrow | hrest
    · cases hanswer : (expand ask now (some row) fields resolver).answer with
      | error e =>
        rw [hanswer] at hrow
        cases hrow
      | ok records =>
        rw [hanswer] at hrow
        exact ⟨row, List.mem_cons_self, fields, resolver, records, hanswer, hrow⟩
    · obtain ⟨r, hr, hyields⟩ := ih hrest
      exact ⟨r, List.mem_cons_of_mem row hr, hyields⟩

end Row

end Legacy

namespace Store.Database

section Migrate

variable [SuffixList] {ι : Type} {d d' : Database} {now : Instant} {fields : List Field}

/-- A migration stores the records that rows by host yield. Those of a row with a host name have its
stored app id cut to 32 bits, a negative one counting as 0: the app id itself exactly if it is less
than 2^32. Two rows about one host and kind can meet under one key exactly if their app ids agree
in these bits and both or neither are of an embedded browser. -/
theorem appId_of_migrate (ask : AskIndex ι) (index : ι) (hversion : d.version < 3)
    (h : (migrate (permissionSchema ask index now)).Gives fields d () d') :
    let table := d.hosts.getD .fresh
    let records := expandAll ask now fields ⟨index, []⟩ (table.rows.filterMap table.readRow?)
    let earlier := if 2 ∈ d.versions.getD [] then d.perms else some (d.perms.getD [])
    d'.perms = earlier.map (·.upsertAll now records) ∧
      (∀ q ∈ records, ∃ row ∈ table.rows, ∃ r, table.readRow? row = some r ∧
        r.Yields ask now q) ∧
      ∀ row r a, table.Reads row r a → isVerbatim r.host.toList = false →
        (∀ q, r.Yields ask now q → ∀ n, Origin.IsKeyOfApp q.origin n ↔ n = a.toNat % UInt32.size) ∧
        ∀ row' r' a', table.Reads row' r' a' → r'.host = r.host → r'.kind = r.kind →
          ((∃ q q', r.Yields ask now q ∧ r'.Yields ask now q' ∧ q.key = q'.key) ↔
            (r.isDue now = true ∧ r'.isDue now = true) ∧
              a.toNat % UInt32.size = a'.toNat % UInt32.size ∧
              r.attributes.inBrowser = r'.attributes.inBrowser) := by
  intro table records earlier
  obtain ⟨hperms, -, -, -⟩ := eq_of_migrate hversion h
  refine ⟨hperms, ?_, ?_⟩
  · intro q hq
    obtain ⟨r, hr, hyields⟩ := Row.yields_of_mem_expandAll hq
    obtain ⟨row, hrow, hread⟩ := List.mem_filterMap.mp hr
    exact ⟨row, hrow, r, hread, hyields⟩
  · intro row r a hreads hname
    have happ := hreads.toNat_appId
    constructor
    · intro q hyields n
      rw [hyields.isKeyOfApp_iff hname, happ]
    · intro row' r' a' hreads' hhost hkind
      have happ' := hreads'.toNat_appId
      rw [Row.exists_yields_iff index hname hhost hkind, Origin.Attributes.eq_iff, happ, happ']

end Migrate

/-- Decisions of two apps whose ids differ in the 33rd bit, and of a third one. -/
def wideHosts : HostTable where
  columns := HostTable.standardColumns
  rows := [
    (1, [.text "foo.com", .text "popup", .integer 1, .null, .null, .integer 1000, .integer 7,
      .integer 0]),
    (2, [.text "foo.com", .text "popup", .integer 2, .null, .null, .integer 2000,
      .integer 4294967303, .null]),
    (3, [.text "foo.com", .text "popup", .integer 2, .null, .null, .integer 3000, .integer 8,
      .null])]

def wideDatabase : Database where
  perms := some []
  hosts := some wideHosts
  versions := some [0, 1, 2]

/-- What a row of that table reads as. -/
def wideRow (id : Int) (state : State) (modified : Int) (appId : UInt32) : Legacy.Row :=
  ⟨id, "foo.com", "popup", state, .never, .unset, .atMillis modified, ⟨appId, false⟩⟩

theorem appId_of_migrate_wide :
    let now : Instant := .atMillis 5000
    let ask : AskIndex Unit := none
    let allowed := wideRow 1 .allow 1000 7
    let blocked := wideRow 2 .block 2000 7
    let other := wideRow 3 .block 3000 8
    (∃ q q', allowed.Yields ask now q ∧ blocked.Yields ask now q' ∧ q.key = q'.key) ∧
      ¬(∃ q q', allowed.Yields ask now q ∧ other.Yields ask now q' ∧ q.key = q'.key) ∧
      ∀ q, blocked.Yields ask now q → Origin.IsKeyOfApp q.origin 7 := by
  intro now ask allowed blocked other
  have hanswer : ((migrate (permissionSchema ask () now)).run wideDatabase).answer = .ok () := by
    decide +kernel
  have hmain := appId_of_migrate ask () (by decide) (Action.Gives.of_run hanswer)
  obtain ⟨-, -, hrows⟩ := hmain
  have hallowed : wideHosts.Reads wideHosts.rows[0] allowed 7 :=
    ⟨by decide +kernel, by decide +kernel⟩
  have hblocked : wideHosts.Reads wideHosts.rows[1] blocked 4294967303 :=
    ⟨by decide +kernel, by decide +kernel⟩
  have hother : wideHosts.Reads wideHosts.rows[2] other 8 := ⟨by decide +kernel, by decide +kernel⟩
  obtain ⟨-, hmeets⟩ := hrows _ _ _ hallowed (by decide +kernel)
  obtain ⟨hid, -⟩ := hrows _ _ _ hblocked (by decide +kernel)
  refine ⟨?_, ?_, ?_⟩
  · exact (hmeets _ _ _ hblocked rfl rfl).mpr (by decide +kernel)
  · exact fun hshared => absurd ((hmeets _ _ _ hother rfl rfl).mp hshared).2.1 (by decide)
  · exact fun q hq => (hid q hq 7).mpr (by decide)

/-- A decision for no app is overwritten by that of an app whose id is 2^32. -/
theorem wideAppId_overwrites :
    let table : HostTable := ⟨HostTable.standardColumns, [
      (1, [.text "foo.com", .text "popup", .integer 1, .integer 0, .integer 0, .integer 1000,
        .integer 0, .integer 0]),
      (2, [.text "foo.com", .text "popup", .integer 2, .integer 0, .integer 0, .integer 2000,
        .integer 4294967296, .integer 0])]⟩
    let o := (migrate (permissionSchema (none : AskIndex Unit) () (.atMillis 5000))).run
      { hosts := some table }
    o.answer = .ok () ∧ o.state.perms = some [
      ⟨1, "http://foo.com", "popup", .block, .never, 0, 2000⟩,
      ⟨2, "https://foo.com", "popup", .block, .never, 0, 2000⟩] := by
  decide +kernel

end Store.Database

end Consent
