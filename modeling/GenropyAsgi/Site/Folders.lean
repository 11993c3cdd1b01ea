import GenropyAsgi.Change
import GenropyAsgi.Library.Run

/-!
# The disk follows the rows

A connection has a folder on the disk of the site, with one folder in it for each of its pages.
`GenropyWorker` removes them with the rows: `drop_page` under the lock that it drops the row under,
`drop_connection` and `drop_user` after they let that lock go. In between another request may
register the connection again.

The steps of the core on its registers are code outside the repository; `CoreRows.Spec` is what the
drop verbs need of them. Two things hold of every interleaving: a folder without its row is one
whose removal is still to come; and the folder of a row that is there is never removed, exactly
where no connection is registered again while a removal of its folder is to come.
-/

namespace GenropyAsgi.Folders

open Library

/-- The rows as the drop verbs read them. -/
structure Rows where
  /-- The connection of each page. -/
  pages : Dict PageId ConnectionId
  /-- The user of each connection. -/
  connections : Dict ConnectionId User

/-- The core's own steps on the registers. -/
structure CoreRows where
  /-- The cascading drop of a page. -/
  dropPage : Rows → PageId → Rows
  /-- `registry.drop_page(page_id, cascade=False)`. -/
  dropPageAlone : Rows → PageId → Rows
  /-- The drop of a connection. -/
  dropConnection : Rows → ConnectionId → Rows
  /-- The drop of a user. -/
  dropUser : Rows → User → Rows
  /-- The birth of a connection. -/
  newConnection : Rows → ConnectionId → User → Rows
  /-- The birth of a page. -/
  newPage : Rows → PageId → ConnectionId → Rows
  /-- The re-labelling of a connection. -/
  changeConnectionUser : Rows → ConnectionId → User → Rows

/-- Some pages and some connections went, and every other row is as it was. -/
structure Dropped (rows rows' : Rows) (page : PageId → Prop) (connection : ConnectionId → Prop) :
    Prop where
  /-- The pages that are left. -/
  pages : ∀ p cid, rows'.pages.get p = some cid ↔ rows.pages.get p = some cid ∧ ¬ page p
  /-- The connections that are left. -/
  connections : ∀ cid user, rows'.connections.get cid = some user ↔
    rows.connections.get cid = some user ∧ ¬ connection cid

/-- What the drop verbs need of the core's steps. -/
structure CoreRows.Spec (core : CoreRows) : Prop where
  /-- The page goes, and the connection that its departure empties. -/
  dropPage : ∀ rows p cid, rows.pages.get p = some cid →
    Dropped rows (core.dropPage rows p) (fun q => q = p)
      fun d => d = cid ∧ ∀ q, rows.pages.get q = some cid → q = p
  /-- The page goes. -/
  dropPageAlone : ∀ rows p, Dropped rows (core.dropPageAlone rows p) (fun q => q = p) fun _ => False
  /-- The connection goes, and its pages. -/
  dropConnection : ∀ rows cid, Dropped rows (core.dropConnection rows cid)
    (fun p => rows.pages.get p = some cid) fun d => d = cid
  /-- The connections of the user go, and their pages. -/
  dropUser : ∀ rows user, Dropped rows (core.dropUser rows user)
    (fun p => ∃ cid, rows.pages.get p = some cid ∧ rows.connections.get cid = some user)
    fun cid => rows.connections.get cid = some user
  /-- The connection is there, and no other row is touched. -/
  newConnection : ∀ rows cid user, (core.newConnection rows cid user).pages = rows.pages ∧
    ∀ d, (core.newConnection rows cid user).connections.get d =
      if d = cid then some user else rows.connections.get d
  /-- The page is there, and no other row is touched. -/
  newPage : ∀ rows p cid, (core.newPage rows p cid).connections = rows.connections ∧
    ∀ q, (core.newPage rows p cid).pages.get q = if q = p then some cid else rows.pages.get q
  /-- No row comes or goes, and no page moves to another connection. -/
  changeConnectionUser : ∀ rows cid user,
    (core.changeConnectionUser rows cid user).pages = rows.pages ∧
      ∀ d, ((core.changeConnectionUser rows cid user).connections.get d).isSome =
        (rows.connections.get d).isSome

/-- A folder under `connections_folder`. -/
inductive Folder where
  /-- The folder of a connection. -/
  | connection (connection_id : ConnectionId)
  /-- The folder of a page, in that of its connection. -/
  | page (connection_id : ConnectionId) (page_id : PageId)
deriving DecidableEq

/-- The connection that a folder belongs to. -/
def Folder.owner : Folder → ConnectionId
  | .connection connection_id => connection_id
  | .page connection_id _ => connection_id

/-- A folder has its row: the connection is there, or the page, on this connection. -/
def Rows.has (rows : Rows) : Folder → Bool
  | .connection connection_id => (rows.connections.get connection_id).isSome
  | .page connection_id page_id => rows.pages.get page_id = some connection_id

/-- The disk without the folder of a connection and what is in it: `shutil.rmtree` of it. -/
def rmtree (disk : Finset Folder) (connection_id : ConnectionId) : Finset Folder :=
  disk.filter fun folder => folder.owner ≠ connection_id

/-- A worker, its disk, and the removals that threads have still to make. -/
structure Host where
  /-- The registers. -/
  rows : Rows
  /-- The folders. -/
  disk : Finset Folder
  /-- The connections whose folder a thread is about to remove. -/
  removals : Multiset ConnectionId

/-- What threads do. -/
inductive Act where
  /-- `new_connection` of the client. -/
  | newConnection (connection_id : ConnectionId) (user : User)
  /-- `new_page`. -/
  | newPage (page_id : PageId) (connection_id : ConnectionId)
  /-- `change_connection_user`. -/
  | changeConnectionUser (connection_id : ConnectionId) (user : User)
  /-- The site writes into a folder. -/
  | write (folder : Folder)
  /-- `drop_page`. -/
  | dropPage (page_id : PageId) (cascade : Bool)
  /-- `drop_connection`, up to where the lock is let go. -/
  | dropConnection (connection_id : ConnectionId)
  /-- `drop_user`, up to where the lock is let go. -/
  | dropUser (user : User)
  /-- A thread goes on to remove the folder of a connection that it dropped. -/
  | rmtree (connection_id : ConnectionId)

variable (core : CoreRows)

/-- The rows as `drop_page` leaves them, with its `cascade` flag. -/
def droppedRows (rows : Rows) (page_id : PageId) (cascade : Bool) : Rows :=
  if cascade then core.dropPage rows page_id else core.dropPageAlone rows page_id

/-- `drop_page`: the rows, then the disk, all under the lock. -/
def dropPage (host : Host) (page_id : PageId) (cascade : Bool) : Host :=
  match host.rows.pages.get page_id with
  | none => host
  | some connection_id =>
    { host with
      rows := droppedRows core host.rows page_id cascade
      disk :=
        if (droppedRows core host.rows page_id cascade).connections.get connection_id = none then
          rmtree host.disk connection_id
        else host.disk.erase (.page connection_id page_id) }

/-- The connections of a user, as `drop_user` lists them before it drops their rows. -/
def connectionsOf (rows : Rows) (user : User) : Finset ConnectionId :=
  rows.connections.keys.filter fun cid => rows.connections.get cid = some user

/-- One step of one thread. A page is born under an identity of its own, on a connection that is
there; the site writes into the folders of rows that are there. -/
def step (host : Host) : Act → Option Host
  | .newConnection cid user =>
    some (if (host.rows.connections.get cid).isSome then host
      else { host with rows := core.newConnection host.rows cid user })
  | .newPage p cid =>
    if host.rows.pages.get p = none ∧ (host.rows.connections.get cid).isSome then
      some { host with rows := core.newPage host.rows p cid }
    else none
  | .changeConnectionUser cid user =>
    some { host with rows := core.changeConnectionUser host.rows cid user }
  | .write folder =>
    if host.rows.has folder then some { host with disk := insert folder host.disk } else none
  | .dropPage p cascade => some (dropPage core host p cascade)
  | .dropConnection cid =>
    some { host with
      rows := core.dropConnection host.rows cid
      removals := cid ::ₘ host.removals }
  | .dropUser user =>
    some { host with
      rows := core.dropUser host.rows user
      removals := (connectionsOf host.rows user).val + host.removals }
  | .rmtree cid =>
    if cid ∈ host.removals then
      some { host with disk := rmtree host.disk cid, removals := host.removals.erase cid }
    else none

/-- A page is on a connection that is there. -/
def Coherent (rows : Rows) : Prop :=
  ∀ p cid, rows.pages.get p = some cid → (rows.connections.get cid).isSome

/-- A folder has its row, or its removal is to come. -/
def Covered (host : Host) : Prop :=
  ∀ folder ∈ host.disk, host.rows.has folder ∨ folder.owner ∈ host.removals

/-- No removal is to come for a connection that is there. -/
def Spared (host : Host) : Prop := ∀ cid ∈ host.removals, host.rows.connections.get cid = none

/-- No connection is registered while a removal of its folder is to come. -/
def Unhurried (host : Host) : Act → Prop
  | .newConnection cid _ => cid ∉ host.removals
  | _ => True

/-- The step removes no folder whose row is there afterwards. -/
def KeepsLive (host : Host) (act : Act) : Prop :=
  ∀ host', step core host act = some host' →
    ∀ folder ∈ host.disk, host'.rows.has folder → folder ∈ host'.disk

/-! ## What the rows that are left have -/

section Rows

variable {rows rows' : Rows} {page : PageId → Prop} {connection : ConnectionId → Prop}

/-- The folder of a connection has its row where the connection is there. -/
theorem has_connection {cid : ConnectionId} :
    rows.has (.connection cid) = true ↔ ∃ user, rows.connections.get cid = some user :=
  Option.isSome_iff_exists

/-- The folder of a page has its row where the page is there on this connection. -/
theorem has_page {cid : ConnectionId} {p : PageId} :
    rows.has (.page cid p) = true ↔ rows.pages.get p = some cid := by
  unfold Rows.has
  rw [decide_eq_true_eq]

/-- A row that did not go is there. -/
theorem Dropped.has (hd : Dropped rows rows' page connection) {folder : Folder}
    (hrow : rows.has folder) (hpage : ∀ cid p, folder = .page cid p → ¬ page p)
    (hconnection : ∀ cid, folder = .connection cid → ¬ connection cid) : rows'.has folder := by
  cases folder with
  | connection cid =>
    obtain ⟨user, huser⟩ := has_connection.1 hrow
    exact has_connection.2 ⟨user, (hd.connections cid user).2 ⟨huser, hconnection cid rfl⟩⟩
  | page cid p => exact has_page.2 ((hd.pages p cid).2 ⟨has_page.1 hrow, hpage cid p rfl⟩)

/-- A connection that was not there is not. -/
theorem Dropped.get_none (hd : Dropped rows rows' page connection) {cid : ConnectionId}
    (hnone : rows.connections.get cid = none) : rows'.connections.get cid = none := by
  rw [Option.eq_none_iff_forall_ne_some] at hnone ⊢
  exact fun user huser => hnone user ((hd.connections cid user).1 huser).1

/-- A connection that went is not there. -/
theorem Dropped.gone (hd : Dropped rows rows' page connection) {cid : ConnectionId}
    (hcid : connection cid) : rows'.connections.get cid = none := by
  rw [Option.eq_none_iff_forall_ne_some]
  exact fun user huser => ((hd.connections cid user).1 huser).2 hcid

/-- The pages of the connections that went are gone: the rows stay coherent. -/
theorem Dropped.coherent (hd : Dropped rows rows' page connection) (hrows : Coherent rows)
    (hpages : ∀ p cid, rows.pages.get p = some cid → ¬ page p → ¬ connection cid) :
    Coherent rows' := by
  intro p cid hp
  obtain ⟨hp, hnot⟩ := (hd.pages p cid).1 hp
  obtain ⟨user, huser⟩ := Option.isSome_iff_exists.1 (hrows p cid hp)
  exact Option.isSome_iff_exists.2
    ⟨user, (hd.connections cid user).2 ⟨huser, hpages p cid hp hnot⟩⟩

/-- A folder is left by the removal of another connection's. -/
theorem mem_rmtree {disk : Finset Folder} {cid : ConnectionId} {folder : Folder} :
    folder ∈ rmtree disk cid ↔ folder ∈ disk ∧ folder.owner ≠ cid := by
  unfold rmtree
  rw [Finset.mem_filter]

/-- The connections that `drop_user` lists. -/
theorem mem_connectionsOf {user : User} {cid : ConnectionId} :
    cid ∈ connectionsOf rows user ↔ rows.connections.get cid = some user := by
  unfold connectionsOf
  rw [Finset.mem_filter, Dict.mem_keys]
  refine ⟨And.right, fun h => ⟨?_, h⟩⟩
  rw [h]
  rfl

end Rows

/-! ## One step -/

variable {core} {host host' : Host}

/-- What `drop_page` drops: the page, and its connection where that is found gone. -/
theorem dropPage_dropped (hspec : core.Spec) {p : PageId} {cid : ConnectionId} (cascade : Bool)
    (hp : host.rows.pages.get p = some cid) :
    ∃ connection : ConnectionId → Prop,
      Dropped host.rows (droppedRows core host.rows p cascade) (fun q => q = p) connection ∧
        ∀ d, connection d → d = cid ∧ ∀ q, host.rows.pages.get q = some cid → q = p := by
  cases cascade with
  | true => exact ⟨_, hspec.dropPage host.rows p cid hp, fun _ hd => hd⟩
  | false => exact ⟨_, hspec.dropPageAlone host.rows p, fun _ hd => hd.elim⟩

/-- Rows to which a connection came have what the rows had. -/
theorem has_newConnection (hspec : core.Spec) {rows : Rows} (cid : ConnectionId) (user : User)
    {folder : Folder} (hrow : rows.has folder) :
    (core.newConnection rows cid user).has folder := by
  obtain ⟨hpages, hconnections⟩ := hspec.newConnection rows cid user
  cases folder with
  | connection d =>
    obtain ⟨u, hu⟩ := has_connection.1 hrow
    refine has_connection.2 ?_
    rw [hconnections]
    split_ifs
    · exact ⟨user, rfl⟩
    · exact ⟨u, hu⟩
  | page d p =>
    refine has_page.2 ?_
    rw [hpages]
    exact has_page.1 hrow

/-- Rows to which a page of a new identity came have what the rows had. -/
theorem has_newPage (hspec : core.Spec) {rows : Rows} {p : PageId} {cid : ConnectionId}
    (hnew : rows.pages.get p = none) {folder : Folder} (hrow : rows.has folder) :
    (core.newPage rows p cid).has folder := by
  obtain ⟨hconnections, hpages⟩ := hspec.newPage rows p cid
  cases folder with
  | connection d =>
    refine has_connection.2 ?_
    rw [hconnections]
    exact has_connection.1 hrow
  | page d q =>
    have hq := has_page.1 hrow
    have hne : q ≠ p := by
      rintro rfl
      rw [hnew] at hq
      cases hq
    refine has_page.2 ?_
    rw [hpages, if_neg hne]
    exact hq

/-- A re-labelling leaves every folder its row. -/
theorem has_changeConnectionUser (hspec : core.Spec) {rows : Rows} (cid : ConnectionId)
    (user : User) (folder : Folder) :
    (core.changeConnectionUser rows cid user).has folder = rows.has folder := by
  obtain ⟨hpages, hconnections⟩ := hspec.changeConnectionUser rows cid user
  cases folder with
  | connection d => exact hconnections d
  | page d p =>
    unfold Rows.has
    rw [hpages]

/-- Every step keeps the rows coherent. -/
theorem coherent_step (hspec : core.Spec) (hrows : Coherent host.rows) {act : Act}
    (h : step core host act = some host') : Coherent host'.rows := by
  cases act with
  | newConnection cid user =>
    cases h
    split_ifs with hthere
    · exact hrows
    · intro p d hp
      obtain ⟨hpages, hconnections⟩ := hspec.newConnection host.rows cid user
      rw [hpages] at hp
      rw [hconnections]
      split_ifs
      · rfl
      · exact hrows p d hp
  | newPage p cid =>
    obtain ⟨⟨_, hcid⟩, heq⟩ := Option.ite_none_right_eq_some.1 h
    cases heq
    obtain ⟨hconnections, hpages⟩ := hspec.newPage host.rows p cid
    intro q d hq
    rw [hpages] at hq
    rw [hconnections]
    split_ifs at hq
    · cases hq
      exact hcid
    · exact hrows q d hq
  | changeConnectionUser cid user =>
    cases h
    obtain ⟨hpages, hconnections⟩ := hspec.changeConnectionUser host.rows cid user
    intro p d hp
    rw [hpages] at hp
    rw [hconnections]
    exact hrows p d hp
  | write folder =>
    obtain ⟨_, heq⟩ := Option.ite_none_right_eq_some.1 h
    cases heq
    exact hrows
  | dropPage p cascade =>
    cases h
    unfold dropPage
    split
    · exact hrows
    · next cid hp =>
      obtain ⟨connection, hd, hgone⟩ := dropPage_dropped hspec cascade hp
      refine hd.coherent hrows fun q d hq hne hconnection => hne ?_
      obtain ⟨rfl, hlast⟩ := hgone d hconnection
      exact hlast q hq
  | dropConnection cid =>
    cases h
    exact (hspec.dropConnection host.rows cid).coherent hrows fun p d hp hnot heq =>
      hnot (heq ▸ hp)
  | dropUser user =>
    cases h
    exact (hspec.dropUser host.rows user).coherent hrows fun p d hp hnot heq =>
      hnot ⟨d, hp, heq⟩
  | rmtree cid =>
    obtain ⟨_, heq⟩ := Option.ite_none_right_eq_some.1 h
    cases heq
    exact hrows

/-- The drop of a page takes the folders of what went with it. -/
theorem covered_dropPage (hspec : core.Spec) (hcovered : Covered host) (p : PageId)
    (cascade : Bool) : Covered (dropPage core host p cascade) := by
  unfold dropPage
  split
  · exact hcovered
  · next cid hp =>
    obtain ⟨connection, hd, hgone⟩ := dropPage_dropped hspec cascade hp
    intro folder hfolder
    dsimp only at hfolder ⊢
    split_ifs at hfolder with hconnection
    · -- The connection is gone, and its folder with all that was in it.
      obtain ⟨hfolder, howner⟩ := mem_rmtree.1 hfolder
      refine (hcovered folder hfolder).imp_left fun hrow => hd.has hrow ?_ ?_
      · rintro d q rfl rfl
        rw [has_page, hp] at hrow
        cases hrow
        exact howner rfl
      · rintro d rfl hd'
        exact howner (hgone d hd').1
    · -- The connection is there, and the folder of the page is gone.
      obtain ⟨hne, hfolder⟩ := Finset.mem_erase.1 hfolder
      refine (hcovered folder hfolder).imp_left fun hrow => hd.has hrow ?_ ?_
      · rintro d q rfl rfl
        rw [has_page, hp] at hrow
        cases hrow
        exact hne rfl
      · rintro d rfl hd'
        obtain ⟨rfl, _⟩ := hgone d hd'
        exact hconnection (hd.gone hd')

/-- The drop of a connection leaves the removal of its folder to come. -/
theorem covered_dropConnection (hspec : core.Spec) (hcovered : Covered host)
    (cid : ConnectionId) :
    Covered { host with
      rows := core.dropConnection host.rows cid
      removals := cid ::ₘ host.removals } := by
  intro folder hfolder
  by_cases howner : folder.owner = cid
  · right
    rw [howner]
    exact Multiset.mem_cons_self cid _
  · refine (hcovered folder hfolder).imp (fun hrow => ?_) (Multiset.mem_cons_of_mem ·)
    refine (hspec.dropConnection host.rows cid).has hrow ?_ ?_
    · rintro d p rfl hp
      have hrow := has_page.1 hrow
      rw [hp] at hrow
      cases hrow
      exact howner rfl
    · rintro d rfl rfl
      exact howner rfl

/-- The drop of a user leaves those of the connections that were the user's. -/
theorem covered_dropUser (hspec : core.Spec) (hcovered : Covered host) (user : User) :
    Covered { host with
      rows := core.dropUser host.rows user
      removals := (connectionsOf host.rows user).val + host.removals } := by
  intro folder hfolder
  by_cases howner : host.rows.connections.get folder.owner = some user
  · right
    exact Multiset.mem_add.2 (Or.inl (mem_connectionsOf.2 howner))
  · refine (hcovered folder hfolder).imp (fun hrow => ?_) fun hm =>
      Multiset.mem_add.2 (Or.inr hm)
    refine (hspec.dropUser host.rows user).has hrow ?_ ?_
    · rintro d p rfl ⟨c, hp, hc⟩
      have hrow := has_page.1 hrow
      rw [hp] at hrow
      cases hrow
      exact howner hc
    · rintro d rfl hd
      exact howner hd

/-- Every step leaves the folders covered. -/
theorem covered_step (hspec : core.Spec) (hcovered : Covered host) {act : Act}
    (h : step core host act = some host') : Covered host' := by
  cases act with
  | newConnection cid user =>
    cases h
    split_ifs with hthere
    · exact hcovered
    · exact fun folder hfolder => (hcovered folder hfolder).imp_left
        (has_newConnection hspec cid user)
  | newPage p cid =>
    obtain ⟨⟨hnew, _⟩, heq⟩ := Option.ite_none_right_eq_some.1 h
    cases heq
    exact fun folder hfolder => (hcovered folder hfolder).imp_left (has_newPage hspec hnew)
  | changeConnectionUser cid user =>
    cases h
    intro folder hfolder
    rw [has_changeConnectionUser hspec]
    exact hcovered folder hfolder
  | write folder =>
    obtain ⟨hrow, heq⟩ := Option.ite_none_right_eq_some.1 h
    cases heq
    intro other hother
    rcases Finset.mem_insert.1 hother with rfl | hother
    · exact Or.inl hrow
    · exact hcovered other hother
  | dropPage p cascade =>
    cases h
    exact covered_dropPage hspec hcovered p cascade
  | dropConnection cid =>
    cases h
    exact covered_dropConnection hspec hcovered cid
  | dropUser user =>
    cases h
    exact covered_dropUser hspec hcovered user
  | rmtree cid =>
    obtain ⟨_, heq⟩ := Option.ite_none_right_eq_some.1 h
    cases heq
    intro folder hfolder
    obtain ⟨hfolder, howner⟩ := mem_rmtree.1 hfolder
    exact (hcovered folder hfolder).imp_right (Multiset.mem_erase_of_ne howner).2

/-- No folder of a connection that is not there has its row. -/
theorem not_has_of_get_none {rows : Rows} (hrows : Coherent rows) {folder : Folder}
    (hnone : rows.connections.get folder.owner = none) : ¬ rows.has folder := by
  intro hrow
  cases folder with
  | connection cid =>
    obtain ⟨user, huser⟩ := has_connection.1 hrow
    rw [Folder.owner, huser] at hnone
    cases hnone
  | page cid p =>
    have hthere := hrows p cid (has_page.1 hrow)
    rw [Folder.owner] at hnone
    rw [hnone] at hthere
    cases hthere

/-- A step from a state where no removal is to come for a connection that is there leads to such a
state exactly when it registers no connection in a hurry. -/
theorem spared_step (hspec : core.Spec) (hspared : Spared host) {act : Act}
    (h : step core host act = some host') : Spared host' ↔ Unhurried host act := by
  cases act with
  | newConnection cid user =>
    cases h
    split_ifs with hthere
    · refine iff_of_true hspared fun hmem => ?_
      rw [hspared cid hmem] at hthere
      cases hthere
    · obtain ⟨_, hconnections⟩ := hspec.newConnection host.rows cid user
      constructor
      · intro hspared' hmem
        have hnone := hspared' cid hmem
        rw [hconnections, if_pos rfl] at hnone
        cases hnone
      · intro hnot d hd
        have hne : d ≠ cid := fun heq => hnot (heq ▸ hd)
        rw [hconnections, if_neg hne]
        exact hspared d hd
  | newPage p cid =>
    obtain ⟨_, heq⟩ := Option.ite_none_right_eq_some.1 h
    cases heq
    refine iff_of_true (fun d hd => ?_) trivial
    rw [(hspec.newPage host.rows p cid).1]
    exact hspared d hd
  | changeConnectionUser cid user =>
    cases h
    refine iff_of_true (fun d hd => ?_) trivial
    have hsame := (hspec.changeConnectionUser host.rows cid user).2 d
    rw [hspared d hd] at hsame
    exact Option.isNone_iff_eq_none.1 (by rw [← Option.not_isSome, hsame]; rfl)
  | write folder =>
    obtain ⟨_, heq⟩ := Option.ite_none_right_eq_some.1 h
    cases heq
    exact iff_of_true hspared trivial
  | dropPage p cascade =>
    cases h
    refine iff_of_true ?_ trivial
    unfold dropPage
    split
    · exact hspared
    · next cid hp =>
      obtain ⟨_, hd, _⟩ := dropPage_dropped hspec cascade hp
      exact fun d hmem => hd.get_none (hspared d hmem)
  | dropConnection cid =>
    cases h
    refine iff_of_true (fun d hmem => ?_) trivial
    have hd := hspec.dropConnection host.rows cid
    rcases Multiset.mem_cons.1 hmem with rfl | hmem
    · exact hd.gone rfl
    · exact hd.get_none (hspared d hmem)
  | dropUser user =>
    cases h
    refine iff_of_true (fun d hmem => ?_) trivial
    have hd := hspec.dropUser host.rows user
    rcases Multiset.mem_add.1 hmem with hlisted | hmem
    · exact hd.gone (mem_connectionsOf.1 hlisted)
    · exact hd.get_none (hspared d hmem)
  | rmtree cid =>
    obtain ⟨_, heq⟩ := Option.ite_none_right_eq_some.1 h
    cases heq
    exact iff_of_true (fun d hmem => hspared d (Multiset.mem_of_mem_erase hmem)) trivial

/-- The drop of a page removes no folder whose row is there afterwards. -/
theorem keepsLive_dropPage (hspec : core.Spec) {p : PageId} {cascade : Bool}
    (hrows' : Coherent (dropPage core host p cascade).rows) {folder : Folder}
    (hfolder : folder ∈ host.disk) (hrow : (dropPage core host p cascade).rows.has folder) :
    folder ∈ (dropPage core host p cascade).disk := by
  revert hrows' hrow
  unfold dropPage
  split
  · exact fun _ _ => hfolder
  · next cid hp =>
    intro hrows' hrow
    obtain ⟨_, hd, _⟩ := dropPage_dropped hspec cascade hp
    dsimp only at hrow hrows' ⊢
    split_ifs with hconnection
    · refine mem_rmtree.2 ⟨hfolder, ?_⟩
      rintro rfl
      exact not_has_of_get_none hrows' hconnection hrow
    · refine Finset.mem_erase.2 ⟨?_, hfolder⟩
      rintro rfl
      exact ((hd.pages p cid).1 (has_page.1 hrow)).2 rfl

/-- From such a state no step removes the folder of a row that is there. -/
theorem keepsLive_step (hspec : core.Spec) (hrows : Coherent host.rows) (hspared : Spared host)
    (act : Act) : KeepsLive core host act := by
  intro host' h folder hfolder hrow
  have hrows' := coherent_step hspec hrows h
  cases act with
  | newConnection cid user =>
    cases h
    split_ifs
    · exact hfolder
    · exact hfolder
  | newPage p cid =>
    obtain ⟨_, heq⟩ := Option.ite_none_right_eq_some.1 h
    cases heq
    exact hfolder
  | changeConnectionUser cid user =>
    cases h
    exact hfolder
  | write other =>
    obtain ⟨_, heq⟩ := Option.ite_none_right_eq_some.1 h
    cases heq
    exact Finset.mem_insert_of_mem hfolder
  | dropPage p cascade =>
    cases h
    exact keepsLive_dropPage hspec hrows' hfolder hrow
  | dropConnection cid =>
    cases h
    exact hfolder
  | dropUser user =>
    cases h
    exact hfolder
  | rmtree cid =>
    obtain ⟨hmem, heq⟩ := Option.ite_none_right_eq_some.1 h
    cases heq
    refine mem_rmtree.2 ⟨hfolder, ?_⟩
    rintro rfl
    exact not_has_of_get_none hrows (hspared _ hmem) hrow

/-! ## Every interleaving -/

/-- The rows without some pages and some connections. -/
def Rows.without (rows : Rows) (page : PageId → ConnectionId → Bool)
    (connection : ConnectionId → User → Bool) : Rows where
  pages := rows.pages.filter fun p cid => !page p cid
  connections := rows.connections.filter fun cid user => !connection cid user

/-- A core that keeps its rows in these two registers alone. -/
def plainCore : CoreRows where
  dropPage rows p := rows.without (fun q _ => q = p) fun cid _ =>
    rows.pages.get p = some cid ∧ ∀ q ∈ rows.pages.keys, rows.pages.get q = some cid → q = p
  dropPageAlone rows p := rows.without (fun q _ => q = p) fun _ _ => false
  dropConnection rows cid := rows.without (fun _ d => d = cid) fun d _ => d = cid
  dropUser rows user := rows.without (fun _ cid => rows.connections.get cid = some user)
    fun _ owner => owner = user
  newConnection rows cid user := { rows with connections := rows.connections.set cid user }
  newPage rows p cid := { rows with pages := rows.pages.set p cid }
  changeConnectionUser rows cid user :=
    { rows with
      connections := rows.connections.mapVals fun d owner => if d = cid then user else owner }

/-- The rows without some are the rows from which these went. -/
theorem dropped_without {rows : Rows} {page : PageId → ConnectionId → Bool}
    {connection : ConnectionId → User → Bool} {P : PageId → Prop} {C : ConnectionId → Prop}
    (hpage : ∀ p cid, rows.pages.get p = some cid → (page p cid = true ↔ P p))
    (hconnection : ∀ cid user, rows.connections.get cid = some user →
      (connection cid user = true ↔ C cid)) : Dropped rows (rows.without page connection) P C where
  pages p cid := by
    unfold Rows.without
    rw [Dict.get_filter, Option.filter_eq_some_iff]
    refine and_congr_right fun hp => ?_
    rw [← hpage p cid hp]
    simp
  connections cid user := by
    unfold Rows.without
    rw [Dict.get_filter, Option.filter_eq_some_iff]
    refine and_congr_right fun hc => ?_
    rw [← hconnection cid user hc]
    simp

/-- Such a core does what the drop verbs need. -/
theorem plainCore_spec : plainCore.Spec where
  dropPage rows p cid hp := by
    refine dropped_without (fun q d _ => by simp) fun d user _ => ?_
    rw [decide_eq_true_eq, hp, Option.some.injEq]
    constructor
    · rintro ⟨rfl, hlast⟩
      refine ⟨rfl, fun q hq => hlast q ?_ hq⟩
      rw [Dict.mem_keys, hq]
      rfl
    · rintro ⟨rfl, hlast⟩
      exact ⟨rfl, fun q _ hq => hlast q hq⟩
  dropPageAlone rows p := dropped_without (fun q d _ => by simp) fun d user _ => by simp
  dropConnection rows cid :=
    dropped_without (fun q d hq => by simp [hq]) fun d user _ => by simp
  dropUser rows user := by
    refine dropped_without (fun q d hq => ?_) fun d owner hd => ?_
    · rw [decide_eq_true_eq, hq]
      simp only [Option.some.injEq, exists_eq_left']
    · rw [decide_eq_true_eq, hd, Option.some.injEq]
  newConnection rows cid user := ⟨rfl, fun d => Dict.get_set _ _ _ _⟩
  newPage rows p cid := ⟨rfl, fun q => Dict.get_set _ _ _ _⟩
  changeConnectionUser rows cid user := by
    refine ⟨rfl, fun d => ?_⟩
    simp only [plainCore, Dict.get_mapVals, Option.isSome_map]

/-- A worker without rows and folders. -/
def bareHost : Host := ⟨⟨∅, ∅⟩, ∅, 0⟩

/-- A logout, the browser that presents its cookie again, and the removal that comes after it. -/
def hastyReturn : List Act :=
  [.newConnection "c" "u", .write (.connection "c"), .dropConnection "c", .newConnection "c" "u",
    .rmtree "c"]

end GenropyAsgi.Folders
