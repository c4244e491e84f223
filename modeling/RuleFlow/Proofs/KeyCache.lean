import Mathlib.Data.List.Induction
import RuleFlow.KeyCache
import RuleFlow.Proofs.Outcome
import RuleFlow.Repository

/-!
# A cache on a server beside one in memory

A cache of names in memory forgets an id by looking through all that it holds; one on a server looks at a
single entry, the name that was saved last for the id. Both are driven by the same calls (`NameCall`), and
`NameCall.answers` is what callers see of them.

The two agree up to the removals: a removal does the same in both exactly if, of the names that are held, the
one that was saved last for the id is the one that leads to it (`NameCall.Sole`, `NameCall.agree_remove_iff`).
So calls all of whose removals are of this kind are answered alike, and beyond them some later look-up is
answered differently (`NameCall.answers_eq_iff`). `NameCall.shared_name` has the two ways in which an id is
removed that is not the only one of its name, or has not only this name.
-/

namespace RuleFlow

/-- A call of a cache of names. -/
inductive NameCall where
  | save (name id : String)
  | lookup (name : String)
  | remove (id : String)

namespace NameCall

/-- What a cache answers to some calls, one after the other, and what they leave. -/
def serveAll {σ : Type} (serve : NameCall → σ → Result (Option String) × σ) :
    List NameCall → σ → List (Result (Option String)) × σ
  | [], s => ([], s)
  | call :: calls, s =>
    let (r, s) := serve call s
    let (rs, s) := serveAll serve calls s
    (r :: rs, s)

/-- Calls one after the other: the answers of both parts, the second from where the first ended. -/
theorem serveAll_append {σ : Type} {serve : NameCall → σ → Result (Option String) × σ}
    (calls calls' : List NameCall) (s : σ) :
    serveAll serve (calls ++ calls') s =
      ((serveAll serve calls s).1 ++ (serveAll serve calls' (serveAll serve calls s).2).1,
        (serveAll serve calls' (serveAll serve calls s).2).2) := by
  induction calls generalizing s with
  | nil => rfl
  | cons call calls ih => simp [serveAll, ih]

end NameCall

/-- Answers a call from memory. -/
def NameCache.serve : NameCall → NameCache → Result (Option String) × NameCache
  | .save name id, cache => (.ok none, cache.save name id)
  | .lookup name, cache => ((cache.id name).map some, cache)
  | .remove id, cache => (.ok none, cache.remove id)

namespace KeyCache

/-- The answer to a call that changes the server, and the server after it. -/
def changed (s : KeyServer) : Result KeyServer → Result (Option String) × KeyServer
  | .ok s' => (.ok none, s')
  | .error e => (.error e, s)

/-- Answers a call from the server. -/
def serve : NameCall → KeyServer → Result (Option String) × KeyServer
  | .save name id, s => changed s (save name id s)
  | .lookup name, s => ((KeyCache.id name s).map some, s)
  | .remove id, s => changed s (remove id s)

variable {s : KeyServer} {a b name id : String}

@[simp] theorem nameKey_inj : nameKey a = nameKey b ↔ a = b := String.append_right_inj _

@[simp] theorem idKey_inj : idKey a = idKey b ↔ a = b := String.append_right_inj _

@[simp] theorem nameKey_ne_idKey (name id : String) : nameKey name ≠ idKey id := by
  intro h
  have hchars := congrArg String.toList h
  simp [nameKey, idKey, String.toList_append] at hchars

@[simp] theorem idKey_ne_nameKey (id name : String) : idKey id ≠ nameKey name :=
  (nameKey_ne_idKey name id).symm

theorem save_of_up (h : s.isDown = false) :
    save name id s =
      .ok { s with entries := (s.entries.insert (nameKey name) id).insert (idKey id) name } := by
  simp [save, KeyServer.serve, h]

theorem id_of_up (h : s.isDown = false) :
    KeyCache.id name s =
      (s.entries.get? (nameKey name)).elim (.error (.noKey name)) fun id => .ok id := by
  cases hget : s.entries.get? (nameKey name) <;>
    simp [KeyCache.id, KeyServer.serve, h, hget, bind, Except.bind, pure, Except.pure]

/-- Removing deletes the id and the name that is stored under it. -/
theorem remove_of_up (h : s.isDown = false) :
    remove id s = .ok
      { s with
        entries := (s.entries.get? (idKey id)).elim (s.entries.erase (idKey id))
          fun name => (s.entries.erase (idKey id)).erase (nameKey name) } := by
  cases hget : s.entries.get? (idKey id) <;>
    simp [remove, KeyServer.serve, h, hget, bind, Except.bind]

end KeyCache

namespace NameCall

/-! ## What is held after some calls -/

/-- The ids by name that a cache in memory holds after some calls. -/
def held (calls : List NameCall) : NameCache := (serveAll NameCache.serve calls .empty).2

/-- The server after some calls. -/
def server (calls : List NameCall) : KeyServer := (serveAll KeyCache.serve calls {}).2

/-- The name that was saved last for an id, if the id was not removed since. -/
def lastName (id : String) (calls : List NameCall) : Option String :=
  calls.foldl (fun last call =>
    match call with
    | .save name other => if other = id then some name else last
    | .lookup _ => last
    | .remove other => if other = id then none else last) none

variable {calls earlier : List NameCall} {call : NameCall} {name id : String}

/-- What the cache in memory holds after one more call. -/
theorem held_concat (calls : List NameCall) (call : NameCall) :
    held (calls ++ [call]) = (NameCache.serve call (held calls)).2 := by
  simp [held, serveAll_append, serveAll]

theorem server_concat (calls : List NameCall) (call : NameCall) :
    server (calls ++ [call]) = (KeyCache.serve call (server calls)).2 := by
  simp [server, serveAll_append, serveAll]

theorem isDown_server (calls : List NameCall) : (server calls).isDown = false := by
  induction calls using List.reverseRecOn with
  | nil => rfl
  | append_singleton calls call ih =>
    rw [server_concat]
    cases call with
    | save name id => simpa [KeyCache.serve, KeyCache.save_of_up ih, KeyCache.changed] using ih
    | lookup name => exact ih
    | remove id => simpa [KeyCache.serve, KeyCache.remove_of_up ih, KeyCache.changed] using ih

/-- After a save, the name and the id are on the server. -/
theorem entries_save (calls : List NameCall) (name id : String) :
    (server (calls ++ [.save name id])).entries =
      ((server calls).entries.insert (KeyCache.nameKey name) id).insert (KeyCache.idKey id) name := by
  rw [server_concat, KeyCache.serve, KeyCache.save_of_up (isDown_server calls), KeyCache.changed]

theorem server_lookup (calls : List NameCall) (name : String) :
    server (calls ++ [.lookup name]) = server calls := server_concat ..

/-- After a removal, the id and its last name are not on the server. -/
theorem entries_remove (calls : List NameCall) (id : String) :
    (server (calls ++ [.remove id])).entries =
      ((server calls).entries.get? (KeyCache.idKey id)).elim
        ((server calls).entries.erase (KeyCache.idKey id))
        fun name => ((server calls).entries.erase (KeyCache.idKey id)).erase (KeyCache.nameKey name) := by
  rw [server_concat, KeyCache.serve, KeyCache.remove_of_up (isDown_server calls), KeyCache.changed]

/-- Under an id the server has the name that was saved last for it. -/
theorem get?_idKey_server (calls : List NameCall) (id : String) :
    (server calls).entries.get? (KeyCache.idKey id) = lastName id calls := by
  induction calls using List.reverseRecOn with
  | nil => rfl
  | append_singleton calls call ih =>
    rw [lastName, List.foldl_append, ← lastName]
    cases call with
    | save name other => simp [entries_save, Table.get?_insert, ih, eq_comm]
    | lookup name => rwa [server_lookup]
    | remove other =>
      have herased : (server (calls ++ [.remove other])).entries.get? (KeyCache.idKey id) =
          if id = other then none else (server calls).entries.get? (KeyCache.idKey id) := by
        rw [entries_remove]
        cases (server calls).entries.get? (KeyCache.idKey other) <;> simp [Table.get?_erase]
      simp [herased, ih, eq_comm]

/-! ## The two caches agree -/

/-- After some calls the server has the ids under their names that the memory holds. -/
def Agree (calls : List NameCall) : Prop :=
  ∀ name, (server calls).entries.get? (KeyCache.nameKey name) = (held calls).get? name

/-- Of the names that are held, exactly the one that was saved last for an id leads to it. -/
def Sole (calls : List NameCall) (id : String) : Prop :=
  ∀ e ∈ (held calls).entries, e.2 = id ↔ lastName id calls = some e.1

instance (calls : List NameCall) (id : String) : Decidable (Sole calls id) :=
  inferInstanceAs (Decidable (∀ e ∈ (held calls).entries, _))

/-- Whatever is removed by some calls, of the names that are held then exactly the one that was saved last for
the id leads to it. -/
def Exact (calls : List NameCall) : Prop :=
  ∀ earlier id later, calls = earlier ++ .remove id :: later → Sole earlier id

theorem agree_nil : Agree [] := fun _ => rfl

theorem Agree.save (h : Agree calls) (name id : String) : Agree (calls ++ [.save name id]) := by
  intro name'
  simp [entries_save, held_concat, NameCache.serve, NameCache.save, Table.get?_insert, h name']

theorem Agree.lookup (h : Agree calls) (name : String) : Agree (calls ++ [.lookup name]) := by
  intro name'
  rw [server_lookup, h name', held_concat, NameCache.serve]

/-- On the server a removal takes away the name that was saved last for the id, whatever it leads to. -/
theorem get?_nameKey_remove (calls : List NameCall) (id name : String) :
    (server (calls ++ [.remove id])).entries.get? (KeyCache.nameKey name) =
      if lastName id calls = some name then none
      else (server calls).entries.get? (KeyCache.nameKey name) := by
  rw [entries_remove, get?_idKey_server]
  cases lastName id calls <;> simp [Table.get?_erase, eq_comm]

/-- In memory a removal takes away the names that lead to the id. -/
theorem get?_held_remove (calls : List NameCall) (id name : String) :
    (held (calls ++ [.remove id])).get? name = ((held calls).get? name).filter (· ≠ id) := by
  rw [held_concat, NameCache.serve, NameCache.remove, Table.get?_filter]

/-- After a removal they agree if and only if of all names exactly the one saved last for the id led to it. -/
theorem agree_remove_iff (h : Agree calls) : Agree (calls ++ [.remove id]) ↔ Sole calls id := by
  -- One name at a time: it may only be taken away by both or by none.
  have hname : ∀ name, (server (calls ++ [.remove id])).entries.get? (KeyCache.nameKey name) =
      (held (calls ++ [.remove id])).get? name ↔
        ∀ other, (held calls).get? name = some other →
          (other = id ↔ lastName id calls = some name) := by
    intro name
    rw [get?_nameKey_remove, get?_held_remove, h name]
    cases (held calls).get? name with
    | none => simp
    | some other => by_cases hid : other = id <;> simp [Option.filter, hid]
  constructor
  · rintro hagree ⟨name, other⟩ he
    exact (hname name).1 (hagree name) other (Table.get?_eq_some_iff.2 he)
  · intro hsole name
    exact (hname name).2 fun other hother => hsole (name, other) (Table.get?_eq_some_iff.1 hother)

theorem exact_nil : Exact [] := by
  intro earlier id later h
  simp at h

theorem Exact.of_append {later : List NameCall} (h : Exact (calls ++ later)) : Exact calls := by
  rintro earlier id rest rfl
  exact h earlier id (rest ++ later) (by simp)

/-- A removal at the end of exact calls finds exactly the name that was saved last. -/
theorem Exact.sole (h : Exact (calls ++ [.remove id])) : Sole calls id := h calls id [] rfl

/-- Exact calls stay so with one more, if a removal finds exactly the name that was saved last. -/
theorem Exact.concat (h : Exact calls) (hcall : ∀ id, call = .remove id → Sole calls id) :
    Exact (calls ++ [call]) := by
  intro earlier id later heq
  rcases List.eq_nil_or_concat later with rfl | ⟨later, last, rfl⟩
  · obtain ⟨rfl, hlast⟩ := List.append_inj' heq rfl
    exact hcall id (List.singleton_inj.1 hlast)
  · have hsplit : calls ++ [call] = (earlier ++ .remove id :: later) ++ [last] := by simpa using heq
    exact h earlier id later (List.append_inj' hsplit rfl).1

theorem Exact.agree (h : Exact calls) : Agree calls := by
  induction calls using List.reverseRecOn with
  | nil => exact agree_nil
  | append_singleton calls call ih =>
    have hagree := ih h.of_append
    cases call with
    | save name id => exact hagree.save name id
    | lookup name => exact hagree.lookup name
    | remove id => exact (agree_remove_iff hagree).2 h.sole

/-- What the cache on the server answers to some calls. -/
def serverAnswers (calls : List NameCall) : List (Result (Option String)) :=
  (serveAll KeyCache.serve calls {}).1

/-- What the cache in memory answers to some calls. -/
def heldAnswers (calls : List NameCall) : List (Result (Option String)) :=
  (serveAll NameCache.serve calls .empty).1

theorem serverAnswers_concat (calls : List NameCall) (call : NameCall) :
    serverAnswers (calls ++ [call]) =
      serverAnswers calls ++ [(KeyCache.serve call (server calls)).1] := by
  simp [serverAnswers, server, serveAll_append, serveAll]

theorem heldAnswers_concat (calls : List NameCall) (call : NameCall) :
    heldAnswers (calls ++ [call]) = heldAnswers calls ++ [(NameCache.serve call (held calls)).1] := by
  simp [heldAnswers, held, serveAll_append, serveAll]

/-- A name is looked up alike exactly if the same is stored under it. -/
theorem lookup_eq_iff (calls : List NameCall) (name : String) :
    (KeyCache.serve (.lookup name) (server calls)).1 = (NameCache.serve (.lookup name) (held calls)).1 ↔
      (server calls).entries.get? (KeyCache.nameKey name) = (held calls).get? name := by
  rw [KeyCache.serve, KeyCache.id_of_up (isDown_server calls), NameCache.serve, NameCache.id]
  cases (server calls).entries.get? (KeyCache.nameKey name) <;> cases (held calls).get? name <;>
    simp [Except.map]

theorem serve_eq_of_agree (h : Agree calls) (call : NameCall) :
    (KeyCache.serve call (server calls)).1 = (NameCache.serve call (held calls)).1 := by
  have hup := isDown_server calls
  cases call with
  | save name id => rw [KeyCache.serve, KeyCache.save_of_up hup, KeyCache.changed, NameCache.serve]
  | lookup name => exact (lookup_eq_iff calls name).2 (h name)
  | remove id => rw [KeyCache.serve, KeyCache.remove_of_up hup, KeyCache.changed, NameCache.serve]

/-- Exact calls are answered alike. -/
theorem Exact.answers_eq (h : Exact calls) : serverAnswers calls = heldAnswers calls := by
  induction calls using List.reverseRecOn with
  | nil => rfl
  | append_singleton calls call ih =>
    rw [serverAnswers_concat, heldAnswers_concat, ih h.of_append, serve_eq_of_agree h.of_append.agree]

/-- If every look-up after some calls is answered alike, the same is stored. -/
theorem agree_of_answers
    (h : ∀ name, serverAnswers (calls ++ [.lookup name]) = heldAnswers (calls ++ [.lookup name])) :
    Agree calls := by
  intro name
  have hname := h name
  rw [serverAnswers_concat, heldAnswers_concat] at hname
  exact (lookup_eq_iff calls name).1 (List.singleton_inj.1 (List.append_inj' hname rfl).2)

/-- The cache on the server answers as the cache in memory does as long as every removal finds, of the names
that are held, exactly the one that was saved last for the id to lead to it. If after each of the calls every
look-up is answered alike, there is no other removal among them. -/
theorem answers_eq_iff (calls : List NameCall) :
    (Exact calls → serverAnswers calls = heldAnswers calls) ∧
    ((∀ earlier later name, calls = earlier ++ later →
      serverAnswers (earlier ++ [.lookup name]) = heldAnswers (earlier ++ [.lookup name])) ↔
        Exact calls) := by
  refine ⟨Exact.answers_eq, fun h => ?_, ?_⟩
  · intro earlier id later hcalls
    have hbefore : Agree earlier := agree_of_answers fun name => h _ _ name hcalls
    have hafter : Agree (earlier ++ [.remove id]) :=
      agree_of_answers fun name => h _ later name (by simpa using hcalls)
    exact (agree_remove_iff hbefore).1 hafter
  · rintro h earlier later name rfl
    exact (h.of_append.concat fun id hcall => by simp at hcall).answers_eq

/-- A chain gets another name, its first name goes to a second chain, and the chain is removed. -/
def renamed : List NameCall :=
  [.save "temperature" "rc1", .remove "rc1", .save "humidity" "rc1", .save "temperature" "rc2",
    .remove "rc1", .lookup "temperature"]

theorem answers_eq_renamed :
    Exact renamed ∧ serverAnswers renamed = heldAnswers renamed ∧
      (heldAnswers renamed).getLast? = some (.ok (some "rc2")) := by
  have hkeeps : ∀ {calls : List NameCall} {name id : String}, Exact calls →
      Exact (calls ++ [.save name id]) := fun h => h.concat fun id hcall => by simp at hcall
  have hremoves : ∀ {calls : List NameCall} {id : String}, Exact calls → Sole calls id →
      Exact (calls ++ [.remove id]) := fun h hsole => h.concat fun id hcall => by
    rwa [← NameCall.remove.inj hcall]
  have hfirst : Exact (renamed.take 2) := hremoves (hkeeps exact_nil) (by decide +kernel)
  have hsecond : Exact (renamed.take 5) :=
    hremoves (hkeeps (hkeeps hfirst)) (by decide +kernel)
  have hexact : Exact renamed := hsecond.concat fun id hcall => by simp at hcall
  exact ⟨hexact, (answers_eq_iff renamed).1 hexact, by decide +kernel⟩

/-- A name passes from one chain to another, and the first chain is removed. -/
def passedOn : List NameCall :=
  [.save "temperature" "rc1", .save "temperature" "rc2", .remove "rc1", .lookup "temperature"]

/-- A chain has two names, and is removed. -/
def secondName : List NameCall :=
  [.save "temperature" "rc1", .save "humidity" "rc1", .remove "rc1", .lookup "temperature"]

/-- On the server a name is lost with the chain that it led to before, and a chain that is gone is still found
under its first name. -/
theorem shared_name :
    ((serverAnswers passedOn).getLast? = some (.error (.noKey "temperature")) ∧
      (heldAnswers passedOn).getLast? = some (.ok (some "rc2"))) ∧
    (serverAnswers secondName).getLast? = some (.ok (some "rc1")) ∧
      (heldAnswers secondName).getLast? = some (.error (.noKey "temperature")) := by
  decide +kernel

end NameCall

end RuleFlow
