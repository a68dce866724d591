/-
  LoxLang.Proofs.InPlace.Frame
  ────────────────────────────
  **What code can reach.**  Code that runs in one environment of the row changes that one at
  most; those that come to the row while it runs are its own affair (`Changes`).  And the
  environment in which code runs is never one that a function has captured, for a call and
  a block at top level make theirs anew (`Owned`).  Together this is the discipline
  (`Changes.disciplined`).
-/
import LoxLang.Proofs.InPlace.Evaluator

namespace LoxLang

namespace Env

variable {α : Type}

/-- Changing nothing is one way of declaring. -/
theorem Edited.refl (e : Env α) : e.Edited e :=
  ⟨rfl, .inl rfl⟩

/-- A declaration is one edit. -/
theorem edited_declare (e : Env α) (name : String) (a : α) : e.Edited (e.declare name a) := by
  refine ⟨marks_declare e name a, .inr ?_⟩
  unfold declare
  split
  · next slot hslot =>
    obtain ⟨hslot, hle⟩ := slotOf?_of_activeSlot? hslot
    have hlt : slot < e.size := lt_size_of_slotOf? hslot
    refine .inl ⟨slot, hlt, hle, (name, a), ?_, rfl⟩
    show (e.bindings.set slot (name, a))[slot]? = some (name, a)
    exact List.getElem?_set_self hlt
  · exact .inr ⟨(name, a), by simp [append], rfl⟩

/-- One edit leaves what is below the active scope as it was. -/
theorem Edited.grown {e e' : Env α} (h : e.Edited e') : e.Grown e' := by
  obtain ⟨hmarks, hsame | ⟨slot, -, hle, b, -, hset⟩ | ⟨b, -, happend⟩⟩ := h
  · refine ⟨hmarks, ?_⟩
    rw [hsame]
    exact List.take_prefix _ _
  · refine ⟨hmarks, ?_⟩
    rw [hset, ← List.take_set_of_le hle (a := b)]
    exact List.take_prefix _ _
  · refine ⟨hmarks, ?_⟩
    rw [happend]
    exact (List.take_prefix _ _).trans (List.prefix_append _ _)

end Env

namespace InPlace

/-- Whatever is allowed, nothing need be changed. -/
theorem allowed_refl (declares : Bool) (e : Env Addr) : Allowed declares e e := by
  cases declares with
  | false => rfl
  | true => exact Env.Edited.refl e

/-- What is allowed changes the active scope only. -/
theorem Allowed.grown {declares : Bool} {e e' : Env Addr} (h : Allowed declares e e') :
    e.Grown e' := by
  cases declares with
  | false =>
    have heq : e' = e := h
    rw [heq]
    exact Env.Grown.refl e
  | true => exact Env.Edited.grown h

/-! ## §1. Effects. -/

/-- Code that runs in the environment `here` leads from one state to the other: it has
changed that environment, if at all, as `p` has it, none of the others, and the table not at
all; and what functions have captured since is new in the row. -/
structure Changes (here : Option Nat) (p : Env Addr → Env Addr → Prop) (w w' : World) :
    Prop where
  table : w'.table = w.table
  length : w.envs.length ≤ w'.envs.length
  others : ∀ id, id < w.envs.length → here ≠ some id → w'.envs[id]? = w.envs[id]?
  own : ∀ e ∈ w.locals here, ∃ e' ∈ w'.locals here, p e e'
  captures : ∃ more, w'.captures = w.captures ++ more
    ∧ ∀ id ∈ more, w.envs.length ≤ id ∧ id < w'.envs.length

section

variable {here : Option Nat} {p q r : Env Addr → Env Addr → Prop} {w w' w'' : World}

/-- Nothing has changed of what the discipline is about. -/
theorem Changes.of_eq (hp : ∀ e, p e e) (htable : w'.table = w.table) (henvs : w'.envs = w.envs)
    (hcaptures : w'.captures = w.captures) : Changes here p w w' := by
  have hlocals : w'.locals here = w.locals here := by
    unfold World.locals
    rw [henvs]
  refine ⟨htable, ?_, ?_, ?_, [], ?_, ?_⟩
  · exact Nat.le_of_eq (congrArg List.length henvs.symm)
  · intro id _ _
    rw [henvs]
  · intro e he
    exact ⟨e, by rw [hlocals]; exact he, hp e⟩
  · rw [hcaptures, List.append_nil]
  · intro id hid
    cases hid

/-- Doing nothing changes nothing. -/
theorem Changes.refl (hp : ∀ e, p e e) (w : World) : Changes here p w w :=
  .of_eq hp rfl rfl rfl

/-- More changes may be allowed than are made. -/
theorem Changes.mono (h : Changes here p w w') (hpq : ∀ e e', p e e' → q e e') :
    Changes here q w w' := by
  refine ⟨h.table, h.length, h.others, ?_, h.captures⟩
  intro e he
  obtain ⟨e', he', hp⟩ := h.own e he
  exact ⟨e', he', hpq e e' hp⟩

/-- Changes may follow each other; those of the own environment add up as `r` has it. -/
theorem Changes.trans (h : Changes here p w w') (h' : Changes here q w' w'')
    (hr : ∀ e e' e'', p e e' → q e' e'' → r e e'') : Changes here r w w'' := by
  obtain ⟨more, hmore, hfresh⟩ := h.captures
  obtain ⟨more', hmore', hfresh'⟩ := h'.captures
  have hlength := h.length
  have hlength' := h'.length
  refine ⟨h'.table.trans h.table, by omega, ?_, ?_, more ++ more', ?_, ?_⟩
  · intro id hid hne
    rw [h'.others id (by omega) hne, h.others id hid hne]
  · intro e he
    obtain ⟨e', he', hp⟩ := h.own e he
    obtain ⟨e'', he'', hq⟩ := h'.own e' he'
    exact ⟨e'', he'', hr e e' e'' hp hq⟩
  · rw [hmore', hmore, List.append_assoc]
  · intro id hid
    rcases List.mem_append.1 hid with hid | hid
    · have := hfresh id hid
      omega
    · have := hfresh' id hid
      omega

/-- An environment is changed where it stands. -/
theorem changes_put {id : Nat} {e e' : Env Addr} {p : Env Addr → Env Addr → Prop}
    (he : w.envs[id]? = some e) (hp : p e e') (heap : Heap Held) :
    Changes (some id) p w { w.put id e' with heap := heap } := by
  have hid : id < w.envs.length := (List.getElem?_eq_some_iff.1 he).1
  refine ⟨rfl, ?_, ?_, ?_, [], by simp [World.put], nofun⟩
  · show w.envs.length ≤ (w.envs.set id e').length
    exact Nat.le_of_eq List.length_set.symm
  · intro other _ hne
    have hother : id ≠ other := fun heq => hne (congrArg some heq)
    exact List.getElem?_set_ne hother
  · intro e₀ he₀
    have heq : e₀ = e := Option.some.inj (he₀.symm.trans he)
    subst heq
    exact ⟨e', List.getElem?_set_self hid, hp⟩

/-- A scope is opened in the own environment. -/
theorem changes_openScope {id : Nat} {e : Env Addr} (he : w.envs[id]? = some e) :
    Changes (some id) (fun e e' => e' = e.openScope) w (w.put id e.openScope) :=
  changes_put he (p := fun e e' => e' = e.openScope) rfl w.heap

/-- A scope is closed in the own environment. -/
theorem changes_closeScope {id : Nat} {e e' : Env Addr} (he : w.envs[id]? = some e)
    (hclose : e.closeScope? = some e') :
    Changes (some id) (fun e e' => e.closeScope? = some e') w (w.put id e') :=
  changes_put he (p := fun e e' => e.closeScope? = some e') hclose w.heap

/-- Code that closes the scope it has opened leaves its environment as it was. -/
theorem Changes.closed (h : Changes here (fun e e' => e.openScope.Grown e') w w')
    (hclose : Changes here (fun e e' => e.closeScope? = some e') w' w'') :
    Changes here (Allowed false) w w'' := by
  refine h.trans hclose ?_
  intro e e' e'' hgrown hclose
  exact Option.some.inj (hclose.symm.trans hgrown.closeScope?)

/-! ## §2. Whose environment it is. -/

/-- The environment `here` is in the row, and no function has captured it. -/
structure Owned (here : Option Nat) (w : World) : Prop where
  captures_lt : ∀ id ∈ w.captures, id < w.envs.length
  here_lt : ∀ id, here = some id → id < w.envs.length
  here_free : ∀ id, here = some id → id ∉ w.captures

/-- At the top level there is no environment to be captured again. -/
theorem owned_none {w : World} (h : ∀ id ∈ w.captures, id < w.envs.length) : Owned none w :=
  ⟨h, nofun, nofun⟩

/-- An environment that no function has captured is not captured by what runs in it. -/
theorem Owned.changes (h : Owned here w) (hc : Changes here p w w') : Owned here w' := by
  obtain ⟨more, hmore, hfresh⟩ := hc.captures
  have hlength := hc.length
  refine ⟨?_, ?_, ?_⟩
  · intro id hid
    rw [hmore] at hid
    rcases List.mem_append.1 hid with hid | hid
    · have := h.captures_lt id hid
      omega
    · exact (hfresh id hid).2
  · intro id hid
    have := h.here_lt id hid
    omega
  · intro id hid hmem
    rw [hmore] at hmem
    rcases List.mem_append.1 hmem with hmem | hmem
    · exact h.here_free id hid hmem
    · -- what was captured since is behind all that there was
      have hlt := h.here_lt id hid
      have hge := (hfresh id hmem).1
      omega

/-- An environment that comes new to the row is nobody else's. -/
theorem Owned.push (h : Owned here w) (e : Env Addr) : Owned (some w.envs.length) (w.push e) := by
  have hlength : (w.push e).envs.length = w.envs.length + 1 := List.length_append
  refine ⟨?_, ?_, ?_⟩
  · intro id hid
    have := h.captures_lt id hid
    omega
  · intro id hid
    cases hid
    omega
  · intro id hid hmem
    cases hid
    exact Nat.lt_irrefl _ (h.captures_lt _ hmem)

/-- Every environment that a function had captured is still there, as it was. -/
def Later (w w' : World) : Prop :=
  ∀ id ∈ w.captures, id ∈ w'.captures ∧ w'.envs[id]? = w.envs[id]?

/-- What a function has captured is as it was, since nothing runs in it. -/
theorem Changes.later (hc : Changes here p w w') (h : Owned here w) : Later w w' := by
  obtain ⟨more, hmore, -⟩ := hc.captures
  intro id hid
  refine ⟨?_, hc.others id (h.captures_lt id hid) ?_⟩
  · rw [hmore]
    exact List.mem_append_left more hid
  · intro hhere
    exact h.here_free id hhere hid

/-- Captured environments stay as they are for good. -/
theorem Later.trans (h : Later w w') (h' : Later w' w'') : Later w w'' := by
  intro id hid
  obtain ⟨hid', hsame⟩ := h id hid
  obtain ⟨hid'', hsame'⟩ := h' id hid'
  exact ⟨hid'', hsame'.trans hsame⟩

/-- Code that leaves its environment alone has it still. -/
theorem Changes.locals_eq (hc : Changes here (Allowed false) w w') (h : Owned here w) :
    w'.locals here = w.locals here := by
  cases here with
  | none => rfl
  | some id =>
    have he : w.locals (some id) = some (w.envs.get ⟨id, h.here_lt id rfl⟩) :=
      List.getElem?_eq_getElem (h.here_lt id rfl)
    obtain ⟨e', he', hsame⟩ := hc.own _ he
    rw [he, show w'.locals (some id) = some e' from he', show e' = _ from hsame]

/-- What code does in an environment that is new to the row is nothing to the code around
it, once the table is the one it was. -/
theorem Changes.of_new {w₁ : World} {e : Env Addr} (h : Changes (some w.envs.length) q w₁ w')
    (howned : Owned here w) (henvs : w₁.envs = w.envs ++ [e])
    (hcaptures : w₁.captures = w.captures) :
    Changes here (Allowed false) w { w' with table := w.table } := by
  have hlength := h.length
  rw [henvs, List.length_append, List.length_singleton] at hlength
  have hothers : ∀ id, id < w.envs.length → w'.envs[id]? = w.envs[id]? := by
    intro id hid
    rw [h.others id (by rw [henvs, List.length_append]; omega), henvs,
      List.getElem?_append_left hid]
    intro heq
    exact Nat.ne_of_gt hid (Option.some.inj heq)
  obtain ⟨more, hmore, hfresh⟩ := h.captures
  refine ⟨rfl, ?_, fun id hid _ => hothers id hid, ?_, more, ?_, ?_⟩
  · show w.envs.length ≤ w'.envs.length
    omega
  · intro e₀ he₀
    refine ⟨e₀, ?_, rfl⟩
    cases here with
    | none => cases he₀
    | some id =>
      show w'.envs[id]? = some e₀
      rw [hothers id (howned.here_lt id rfl)]
      exact he₀
  · rw [← hcaptures]
    exact hmore
  · intro id hid
    have := hfresh id hid
    rw [henvs, List.length_append] at this
    show _ ∧ id < w'.envs.length
    omega

/-- What a function captures comes new to the row. -/
theorem changes_capture (howned : Owned here w) (e : Env Addr) :
    Changes here (Allowed false) w
      { w.push e with captures := w.captures ++ [w.envs.length] } := by
  have hlength : (w.envs ++ [e]).length = w.envs.length + 1 := List.length_append
  have hothers : ∀ id, id < w.envs.length → (w.envs ++ [e])[id]? = w.envs[id]? :=
    fun id hid => List.getElem?_append_left hid
  refine ⟨rfl, ?_, fun id hid _ => hothers id hid, ?_, [w.envs.length], rfl, ?_⟩
  · show w.envs.length ≤ (w.envs ++ [e]).length
    omega
  · intro e₀ he₀
    refine ⟨e₀, ?_, rfl⟩
    cases here with
    | none => cases he₀
    | some id => exact (hothers id (howned.here_lt id rfl)).trans he₀
  · intro id hid
    rw [List.mem_singleton.1 hid]
    show w.envs.length ≤ w.envs.length ∧ w.envs.length < (w.envs ++ [e]).length
    omega

/-- **Code that changes its own environment alone, as it may, is disciplined.** -/
theorem Changes.disciplined {declares : Bool} (hc : Changes here (Allowed declares) w w')
    (h : Owned here w) : Disciplined declares here w w' :=
  ⟨hc.table, fun id hid => (hc.later h id hid).2, hc.own⟩

/-- A discipline that is kept goes unnoticed by whoever watches. -/
theorem watch_eq {α : Type} {declares : Bool} {x : Walk α} (h : Owned here w)
    (hc : Changes here (Allowed declares) w (x w).2) : watch declares here x w = x w := by
  have hdisciplined := hc.disciplined h
  unfold watch
  rcases hx : x w with ⟨result, w'⟩
  rw [hx] at hdisciplined
  exact if_pos hdisciplined

end

end InPlace

end LoxLang
