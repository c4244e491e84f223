import RuleFlow.Proofs.Service.Consistent

/-!
# Walking through the pages of a listing

A page is a window on the chains of an owner, and windows of one width that lie side by side make up the whole
list (`Repository.flatMap_page`). Whatever was written into a repository, it lists the chains of an owner by
increasing id, each once (`Repository.pairwise_owned`, `Repository.mem_owned_iff`). With usable settings a page
is neither empty nor wider than the maximum, whatever limit a caller asks for (`Service.pageLimit_bounds`), so
a caller who asks for one page after the other sees all chains of its own and nothing else
(`Service.paged_of_filled`).
-/

namespace RuleFlow

namespace Repository

/-- The repositories that savings, updates and removals lead to; one that fails leads nowhere new. -/
inductive Filled : Repository → Prop
  | empty : Filled .empty
  | save {r r' : Repository} {c : Chain} : Filled r → r.save c = .ok r' → Filled r'
  | update {r r' : Repository} {c : Chain} : Filled r → r.update c = .ok r' → Filled r'
  | revoke {r r' : Repository} {owner id : String} : Filled r → r.revoke owner id = .ok r' → Filled r'

variable {r : Repository} {owner : String} {c : Chain}

/-- Whatever was written, chains are stored under their ids. -/
theorem Filled.keyed (h : Filled r) : ∀ id c, r.get? id = some c → c.id = id := by
  have hinsert : ∀ {r : Repository} {c : Chain}, (∀ id c, r.get? id = some c → c.id = id) →
      ∀ id c', Table.get? (r.insert c.id c) id = some c' → c'.id = id := by
    intro r c ih id c' hget
    rw [Table.get?_insert] at hget
    split at hget
    case isTrue hid => rw [← Option.some.inj hget, hid]
    case isFalse => exact ih id c' hget
  induction h with
  | empty => simp
  | save _ hsave ih =>
    obtain ⟨-, rfl⟩ := save_eq_ok_iff.1 hsave
    exact hinsert ih
  | update _ hupdate ih =>
    obtain ⟨-, rfl⟩ := update_eq_ok_iff.1 hupdate
    exact hinsert ih
  | revoke _ hrevoke ih =>
    obtain ⟨-, rfl⟩ := revoke_eq_ok_iff.1 hrevoke
    intro id c hget
    rw [Table.get?_erase] at hget
    split at hget
    · cases hget
    · exact ih id c hget

theorem Filled.insert (h : Filled r) (hfree : r.get? c.id = none) : Filled (r.insert c.id c) :=
  h.save (save_eq_ok_iff.2 ⟨hfree, rfl⟩)

/-- The chains of an owner are those stored under their ids that belong to the owner. -/
theorem mem_owned_iff (hkeyed : ∀ id c, r.get? id = some c → c.id = id) :
    c ∈ r.owned owner ↔ r.get? c.id = some c ∧ c.owner = owner := by
  rw [owned, List.mem_filter, Table.mem_values, decide_eq_true_eq]
  refine and_congr_left fun _ => ⟨?_, fun h => ⟨_, h⟩⟩
  rintro ⟨id, hget⟩
  rwa [hkeyed id c hget]

/-- The chains of an owner are listed by increasing id. -/
theorem pairwise_owned (hkeyed : ∀ id c, r.get? id = some c → c.id = id) (owner : String) :
    (r.owned owner).Pairwise fun c d => c.id < d.id := by
  have hkeys : r.keys.Pairwise (· < ·) := List.pairwise_map.2 r.sorted
  rw [← ids_values hkeyed, List.pairwise_map] at hkeys
  exact hkeys.filter _

/-- A page holds as many chains as asked for, or as are left. -/
theorem length_page (r : Repository) (owner : String) (offset limit : Nat) :
    (r.page owner offset limit).chains.length = min limit ((r.owned owner).length - offset) := by
  simp [page]

/-- Pages that lie side by side make up the beginning of the listing. -/
theorem flatMap_page (r : Repository) (owner : String) (limit n : Nat) :
    (List.range n).flatMap (fun i => (r.page owner (i * limit) limit).chains) =
      (r.owned owner).take (n * limit) := by
  induction n with
  | zero => simp
  | succ n ih =>
    rw [List.range_succ, List.flatMap_append, ih, List.flatMap_singleton, page, ← List.take_add,
      Nat.succ_mul]

end Repository

namespace Settings

theorem validate_eq_ok_iff {s : Settings} :
    s.validate = .ok () ↔ s.workerPoolSize ≠ 0 ∧ (s.defaultPageLimit ≠ 0 ∧ s.maxPageLimit ≠ 0) ∧
      s.defaultPageLimit ≤ s.maxPageLimit ∧ s.subscribeTopic ≠ "" := by
  unfold validate
  grind

end Settings

namespace Service

variable {ω η : Type} {s : Service ω η} {o : Occasion} {token owner : String}

/-- Whatever a caller asks for, a page holds at least one chain and at most as many as the settings permit. -/
theorem pageLimit_bounds {settings : Settings} (h : settings.validate = .ok ()) (limit : Nat) :
    1 ≤ pageLimit settings limit ∧ pageLimit settings limit ≤ settings.maxPageLimit := by
  obtain ⟨-, ⟨hdefault, hmax⟩, hle, -⟩ := Settings.validate_eq_ok_iff.1 h
  unfold pageLimit
  split <;> omega

theorem list_eq_ok (htoken : s.identify token = .ok owner) (ho : o.fails .list = false)
    (offset limit : Nat) :
    s.list o token offset limit =
      .ok (s.repository.page owner offset (pageLimit s.settings limit)) :=
  bind_eq_ok_iff.2 ⟨owner, htoken, Occasion.stored_eq_ok_iff.2 ⟨ho, rfl⟩⟩

/-! ## Walking -/

/-- With usable settings and a repository that answers, all pages that a caller gets for a limit have the same
width and tell the same total, that of the caller's own chains. A page holds as many of them as there are from
its offset on, up to its width. The pages at the multiples of the width up to the total list these chains by
increasing id and each once. -/
theorem paged_of_filled (hfilled : s.repository.Filled) (hsettings : s.settings.validate = .ok ())
    (htoken : s.identify token = .ok owner) (limit : Nat) :
    ∃ width chains, 1 ≤ width ∧ width ≤ s.settings.maxPageLimit ∧
      chains.Pairwise (fun c d => c.id < d.id) ∧
      (∀ c, c ∈ chains ↔ s.repository.get? c.id = some c ∧ c.owner = owner) ∧
      ∀ o : Occasion, o.fails .list = false →
        (∀ offset, ∃ page, s.list o token offset limit = .ok page ∧ page.limit = width ∧
          page.offset = offset ∧ page.total = chains.length ∧
          page.chains.length = min width (chains.length - offset)) ∧
        ∃ pages, (List.range (chains.length / width + 1)).mapM
            (fun i => s.list o token (i * width) limit) = .ok pages ∧
          pages.flatMap (·.chains) = chains := by
  obtain ⟨hpos, hle⟩ := pageLimit_bounds hsettings limit
  refine ⟨pageLimit s.settings limit, s.repository.owned owner, hpos, hle,
    s.repository.pairwise_owned hfilled.keyed owner,
    fun c => Repository.mem_owned_iff hfilled.keyed, fun o ho => ⟨fun offset => ?_, ?_⟩⟩
  · exact ⟨_, list_eq_ok htoken ho offset limit, rfl, rfl, rfl, Repository.length_page ..⟩
  · refine ⟨_, mapM_eq_ok fun i _ => list_eq_ok htoken ho _ limit, ?_⟩
    have hcovers := Nat.lt_mul_div_succ (s.repository.owned owner).length hpos
    rw [List.flatMap_map, Repository.flatMap_page, List.take_of_length_le]
    rw [Nat.mul_comm]
    exact hcovers.le

/-- Three chains of one user and one of another, not saved in the order of their ids. -/
def mingled : Repository :=
  (((Table.empty.insert "c" { id := "c", owner := "owner" }).insert "x" { id := "x", owner := "guest" }).insert
    "a" { id := "a", owner := "owner" }).insert "b" { id := "b", owner := "owner" }

/-- A service that lets callers see two chains at once. -/
def narrow : Service Unit Unit where
  settings := { defaultPageLimit := 1, maxPageLimit := 2 }
  tokens := Table.ofList [("token", "owner")]
  repository := mingled
  engine := { journey := ⟨(), [], []⟩, failures := { capacity := 1 } }

theorem filled_mingled : Repository.Filled mingled := by
  have hc := Repository.Filled.empty.insert (c := { id := "c", owner := "owner" }) rfl
  have hx := hc.insert (c := { id := "x", owner := "guest" }) (by decide +kernel)
  have ha := hx.insert (c := { id := "a", owner := "owner" }) (by decide +kernel)
  exact ha.insert (c := { id := "b", owner := "owner" }) (by decide +kernel)

/-- More is asked for than a page holds. -/
theorem paged_narrow : narrow.repository.Filled ∧ narrow.settings.validate = .ok () ∧
    narrow.identify "token" = .ok "owner" ∧
    ∃ width chains pages, width ≤ 2 ∧ chains.length = 3 ∧
      chains.Pairwise (fun c d => c.id < d.id) ∧ (∀ c ∈ chains, c.owner = "owner") ∧
      (List.range (3 / width + 1)).mapM (fun i => narrow.list calm "token" (i * width) 7) = .ok pages ∧
      pages.flatMap (·.chains) = chains := by
  have hsettings : narrow.settings.validate = .ok () := by decide +kernel
  have htoken : narrow.identify "token" = .ok "owner" := by decide +kernel
  obtain ⟨width, chains, -, hle, hsorted, hmem, hpages⟩ :=
    paged_of_filled filled_mingled hsettings htoken 7
  obtain ⟨hpage, pages, hwalk, hall⟩ := hpages calm rfl
  obtain ⟨page, hlist, -, -, htotal, -⟩ := hpage 0
  have hthree : (narrow.list calm "token" 0 7).map (·.total) = .ok 3 := by decide +kernel
  have hlength : chains.length = 3 := by
    rw [hlist] at hthree
    exact htotal.symm.trans (Except.ok.inj hthree)
  refine ⟨filled_mingled, hsettings, htoken, width, chains, pages, hle, hlength, hsorted,
    fun c hc => ((hmem c).1 hc).2, ?_, hall⟩
  rwa [hlength] at hwalk

end Service

end RuleFlow
