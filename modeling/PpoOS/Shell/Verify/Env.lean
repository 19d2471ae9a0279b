import PpoOS.Lib.SlotMap
import PpoOS.Shell.Shell
import Mathlib.Data.List.Infix
import Mathlib.Tactic.Push

/-!
# The environment as a finite map

The table of variables keeps names and values in arrays and marks a free slot by an
empty name.  `EnvInv env M`: the slots of `env` are the partial map `M` from names to
values.  A name is stored up to its 31st character but compared as a whole, so
`set_env_var` is an update of the map exactly where the name fits or no slot is free
(`EnvInv.correct_iff`), and **`env_map_iff`** says the same of every run of calls.
-/

namespace PpoOS

open SlotMap

variable {env env' : EnvTable} {M M' : CString → Option CString} {n v w name value : CString} {u : Option CString} {x : EnvVar}

/-! ## One variable -/

/-- The name and the value of a variable that is in use. -/
def EnvVar.entry (v : EnvVar) : Option (CString × CString) := do
  let name ← v.name.text
  let value ← v.value.text
  if name.length = 0 then none else some (name, value)

/-- Name and value end with a NUL. -/
structure EnvVar.Holds (x : EnvVar) (n w : CString) : Prop where
  name : x.name.text = some n
  value : x.value.text = some w

namespace EnvVar.Holds

theorem entry (h : x.Holds n w) : x.entry = if n.length = 0 then none else some (n, w) := by
  rw [EnvVar.entry, h.name, h.value]
  rfl

theorem entry_used (h : x.Holds n w) (hn : n.length ≠ 0) : x.entry = some (n, w) := by rw [h.entry, if_neg hn]

theorem entry_free (h : x.Holds n w) (hn : n.length = 0) : x.entry = none := by rw [h.entry, if_pos hn]

theorem isNamed (h : x.Holds n w) (name : CString) : x.isNamed name = some (x.entry.any fun e => e.1 = name) := by
  rw [EnvVar.isNamed, h.name, h.entry]
  by_cases hn : n.length = 0
  · simp [hn]
  · simp [hn]

end EnvVar.Holds

/-- A copy into a slot takes the first 31 characters of the name. -/
theorem EnvVar.holds_name (hv : x.value.text = some w) (n : CString) :
    EnvVar.Holds { x with name := Buf.ofText shellMaxEnvName (n.take 31) } (n.take 31) w :=
  ⟨Buf.text_ofText (take_length_lt (n := 32) n (by decide)), hv⟩

/-- A copy takes the first 127 characters of the value. -/
theorem EnvVar.holds_value (hn : x.name.text = some n) (v : CString) :
    EnvVar.Holds { x with value := Buf.ofText shellMaxEnvValue (v.take 127) } n (v.take 127) :=
  ⟨hn, Buf.text_ofText (take_length_lt (n := 128) v (by decide))⟩

/-- A NUL in front makes the text empty. -/
theorem Buf.text_write_front {m : Nat} (b : Buf m) (h : 0 < m) :
    ∃ b', b.write 0 0#8 = some b' ∧ b'.text = some CString.empty := by
  obtain ⟨b', hb⟩ := Option.isSome_iff_exists.mp ((Buf.put_isSome_iff (b := b) (l := [0#8]) (Nat.zero_le m)).mpr h)
  have hw : b.write 0 0#8 = some b' := by simpa [Buf.put] using hb
  exact ⟨b', hw, Buf.text_put_zero (t := CString.empty) hb⟩

theorem EnvVar.Holds.unset (h : x.Holds n w) (name : CString) : ∃ y, x.unset name = some y ∧ (∃ n' w', y.Holds n' w') ∧
    y.entry = x.entry.filter fun e => e.1 ≠ name := by
  rw [EnvVar.unset, h.isNamed, Option.bind_eq_bind, Option.bind_some]
  by_cases hany : (x.entry.any fun e => e.1 = name) = true
  · obtain ⟨a, ha, hat⟩ := Buf.text_write_front x.name (by decide)
    obtain ⟨b, hb, hbt⟩ := Buf.text_write_front x.value (by decide)
    have hy : EnvVar.Holds ⟨a, b⟩ CString.empty CString.empty := ⟨hat, hbt⟩
    refine ⟨⟨a, b⟩, ?_, ⟨_, _, hy⟩, ?_⟩
    · rw [if_pos hany, ha, hb]
      rfl
    · rw [hy.entry_free rfl]
      cases hx : x.entry with
      | none => rfl
      | some e =>
        rw [hx] at hany
        rw [Option.filter_some, if_neg (by simpa using hany)]
  · refine ⟨x, if_neg hany, ⟨n, w, h⟩, ?_⟩
    cases hx : x.entry with
    | none => rfl
    | some e =>
      rw [hx] at hany
      rw [Option.filter_some, if_pos (by simpa using hany)]

/-! ## The table -/

/-- The slots of the table. -/
def EnvTable.slots (env : EnvTable) (i : Fin shellMaxEnvVars) : Option (CString × CString) := env[i].entry

/-- All names and values end with a NUL. -/
def EnvTable.Texts (env : EnvTable) : Prop := ∀ i : Fin shellMaxEnvVars, ∃ n w, env[i].Holds n w

/-- The slots of `env` are the map `M`. -/
structure EnvInv (env : EnvTable) (M : CString → Option CString) : Prop where
  texts : env.Texts
  represents : Represents env.slots M

/-- `env_vars` at first. -/
def EnvTable.zero : EnvTable := Vector.replicate shellMaxEnvVars EnvVar.zero

theorem envInv_zero : EnvInv EnvTable.zero fun _ => none := by
  have hzero : EnvVar.zero.Holds CString.empty CString.empty := ⟨Buf.text_zero (by decide), Buf.text_zero (by decide)⟩
  have hget : ∀ i : Fin shellMaxEnvVars, EnvTable.zero[i] = EnvVar.zero := fun i => by
    simp [EnvTable.zero]
  refine ⟨fun i => ⟨_, _, (hget i).symm ▸ hzero⟩, ?_⟩
  have hslots : EnvTable.slots EnvTable.zero = fun _ => none := by
    funext i
    rw [EnvTable.slots, hget, hzero.entry_free rfl]
  rw [hslots]
  exact represents_free _

/-- The search for a name gives the first variable with it. -/
theorem findEnvVar_eq {vars : List EnvVar} (h : ∀ x ∈ vars, ∃ n w, x.Holds n w) (i : Nat) : findEnvVar name vars i =
    some ((vars.findIdx? fun x => x.entry.any fun e => e.1 = name).map (· + i)) := by
  induction vars generalizing i with
  | nil => rfl
  | cons x vars ih =>
    obtain ⟨n, w, hx⟩ := h x List.mem_cons_self
    rw [findEnvVar, hx.isNamed, Option.bind_eq_bind, Option.bind_some, List.findIdx?_cons,
      ih (fun y hy => h y (List.mem_cons_of_mem x hy))]
    split
    · simp
    · rw [Option.map_map]
      congr 2
      funext j
      exact (Nat.add_right_comm j 1 i).symm

/-- The search for a free slot gives the first one. -/
theorem freeEnvVar_eq {vars : List EnvVar} (h : ∀ x ∈ vars, ∃ n w, x.Holds n w) (i : Nat) :
    freeEnvVar vars i = some ((vars.findIdx? fun x => x.entry.isNone).map (· + i)) := by
  induction vars generalizing i with
  | nil => rfl
  | cons x vars ih =>
    obtain ⟨n, w, hx⟩ := h x List.mem_cons_self
    rw [freeEnvVar, hx.name, Option.bind_eq_bind, Option.bind_some, List.findIdx?_cons,
      ih (fun y hy => h y (List.mem_cons_of_mem x hy)), hx.entry]
    by_cases hn : n.length = 0
    · simp [hn]
    · simp only [hn, if_false, Option.isNone_some, Bool.false_eq_true, Option.map_map]
      congr 2
      funext j
      exact (Nat.add_right_comm j 1 i).symm

/-- A variable that is written is the entry of its slot. -/
theorem slots_set (i : Fin shellMaxEnvVars) (x : EnvVar) :
    EnvTable.slots (env.setIfInBounds i x) = Function.update env.slots i x.entry := by
  funext j
  by_cases hij : j = i
  · subst hij
    rw [Function.update_self, EnvTable.slots]
    simp
  · have hne : (i : Nat) ≠ j := fun h => hij (Fin.ext h.symm)
    rw [Function.update_of_ne hij, EnvTable.slots, EnvTable.slots]
    simp [hne]

namespace EnvTable.Texts

theorem holds_of_mem (h : env.Texts) : ∀ x ∈ env.toList, ∃ n w, x.Holds n w := by
  intro x hx
  obtain ⟨i, hi, rfl⟩ := List.mem_iff_getElem.mp hx
  have hlt : i < shellMaxEnvVars := by simpa using hi
  simpa using h ⟨i, hlt⟩

/-- The first slot with a property, or there is none. -/
theorem findIdx_slot (env : EnvTable) (p : EnvVar → Bool) :
    (∃ i : Fin shellMaxEnvVars, env.toList.findIdx? p = some i.val ∧ p env[i] = true) ∨
      env.toList.findIdx? p = none ∧ ∀ i : Fin shellMaxEnvVars, p env[i] = false := by
  cases hf : env.toList.findIdx? p with
  | some i =>
    obtain ⟨hi, hp, -⟩ := List.findIdx?_eq_some_iff_getElem.mp hf
    have hlt : i < shellMaxEnvVars := by simpa using hi
    exact .inl ⟨⟨i, hlt⟩, rfl, by simpa using hp⟩
  | none => exact .inr ⟨rfl, fun i => List.findIdx?_eq_none_iff.mp hf env[i] (by simp)⟩

theorem find (h : env.Texts) (name : CString) :
    (∃ i : Fin shellMaxEnvVars, findEnvVar name env.toList 0 = some (some i.val) ∧ ∃ w, env.slots i = some (name, w)) ∨
      findEnvVar name env.toList 0 = some none ∧ ∀ i w, env.slots i ≠ some (name, w) := by
  rw [findEnvVar_eq h.holds_of_mem]
  rcases findIdx_slot env fun x => x.entry.any fun e => e.1 = name with ⟨i, hf, hp⟩ | ⟨hf, hp⟩
  · refine .inl ⟨i, by rw [hf]; rfl, ?_⟩
    cases hentry : env[i].entry with
    | none =>
      rw [hentry] at hp
      cases hp
    | some e =>
      rw [hentry] at hp
      obtain rfl := of_decide_eq_true hp
      exact ⟨e.2, hentry⟩
  · refine .inr ⟨by rw [hf]; rfl, fun i w hi => ?_⟩
    have hi : env[i].entry = some (name, w) := hi
    have hother := hp i
    rw [hi] at hother
    simp at hother

theorem free (h : env.Texts) :
    (∃ i : Fin shellMaxEnvVars, freeEnvVar env.toList 0 = some (some i.val) ∧ env.slots i = none) ∨
      freeEnvVar env.toList 0 = some none ∧ ∀ i, env.slots i ≠ none := by
  rw [freeEnvVar_eq h.holds_of_mem]
  rcases findIdx_slot env fun x => x.entry.isNone with ⟨i, hf, hp⟩ | ⟨hf, hp⟩
  · exact .inl ⟨i, by rw [hf]; rfl, Option.isNone_iff_eq_none.mp hp⟩
  · refine .inr ⟨by rw [hf]; rfl, fun i hi => ?_⟩
    have hi : env[i].entry = none := hi
    have hother := hp i
    rw [hi] at hother
    cases hother

/-- What the variable of a slot holds. -/
theorem holds_of_slot (h : env.Texts) {i : Fin shellMaxEnvVars} (hi : env.slots i = some (n, w)) :
    env[i].Holds n w ∧ n.length ≠ 0 := by
  obtain ⟨k, v, hx⟩ := h i
  have hentry : env[i].entry = some (n, w) := hi
  rw [hx.entry] at hentry
  split at hentry
  · exact absurd hentry.symm (Option.some_ne_none _)
  · rename_i hk
    obtain ⟨rfl, rfl⟩ := Prod.mk.inj (Option.some.inj hentry)
    exact ⟨hx, hk⟩

/-- No slot has a name of 32 characters. -/
theorem short (h : env.Texts) {i : Fin shellMaxEnvVars} (hi : env.slots i = some (n, w)) : n.length ≤ 31 :=
  Nat.le_of_lt_succ (Buf.length_lt_of_text (h.holds_of_slot hi).1.name)

/-- Where no slot has the name, there is no variable. -/
theorem get_none (h : env.Texts) (hn : ∀ i w, env.slots i ≠ some (n, w)) : getEnvVar env n = some none := by
  rcases h.find n with ⟨i, -, w, hi⟩ | ⟨hfind, -⟩
  · exact absurd hi (hn i w)
  · rw [getEnvVar, hfind]
    rfl

/-- A variable is written into a slot. -/
theorem set (h : env.Texts) (i : Fin shellMaxEnvVars) (hx : x.Holds n w) :
    EnvTable.Texts (env.setIfInBounds i x) := by
  intro j
  by_cases hij : j = i
  · subst hij
    exact ⟨n, w, by simpa using hx⟩
  · have hne : (i : Nat) ≠ j := fun h => hij (Fin.ext h.symm)
    simpa [Vector.getElem_setIfInBounds, hne] using h j

/-- Where no slot has the name and one is free, the variable goes there under the first 31 characters. -/
theorem setEnvVar_new (h : env.Texts) (hn : ∀ i w, env.slots i ≠ some (n, w)) (hfree : ∃ i, env.slots i = none)
    (v : CString) : ∃ i x env', env.slots i = none ∧ setEnvVar env n v = some (true, env') ∧
      x.Holds (n.take 31) (v.take 127) ∧ env' = env.setIfInBounds i x := by
  rcases h.find n with ⟨i, -, w, hi⟩ | ⟨hfind, -⟩
  · exact absurd hi (hn i w)
  rcases h.free with ⟨i, hslot, hi⟩ | ⟨-, hfull⟩
  · obtain ⟨k, w, hx⟩ := h i
    refine ⟨i, _, _, hi, ?_, EnvVar.holds_value (EnvVar.holds_name hx.value n).name v, rfl⟩
    have hget : env[i.val]? = some env[i] := by simp
    rw [setEnvVar, hfind, Option.bind_eq_bind, Option.bind_some]
    simp only [hslot, hget, Option.bind_eq_bind, Option.bind_some, strncpyCut_eq _ _ (show 0 < shellMaxEnvName by decide),
      strncpyCut_eq _ _ (show 0 < shellMaxEnvValue by decide)]
    rfl
  · obtain ⟨i, hi⟩ := hfree
    exact absurd hi (hfull i)

/-- `set_env_var` goes through, and names and values still end with a NUL. -/
theorem setEnvVar (h : env.Texts) (n v : CString) : ∃ done env', setEnvVar env n v = some (done, env') ∧ env'.Texts := by
  rcases h.find n with ⟨i, hfind, w, hi⟩ | ⟨hfind, hnone⟩
  · have hget : env[i.val]? = some env[i] := by simp
    refine ⟨true, _, ?_, h.set i (EnvVar.holds_value (h.holds_of_slot hi).1.name v)⟩
    rw [PpoOS.setEnvVar, hfind, Option.bind_eq_bind, Option.bind_some]
    simp only [hget, Option.bind_eq_bind, Option.bind_some, strncpyCut_eq _ _ (show 0 < shellMaxEnvValue by decide)]
    rfl
  rcases h.free with ⟨i, -, hi⟩ | ⟨hfree, -⟩
  · obtain ⟨i, x, env', -, hset, hx, rfl⟩ := h.setEnvVar_new hnone ⟨i, hi⟩ v
    exact ⟨true, _, hset, h.set i hx⟩
  · refine ⟨false, env, ?_, h⟩
    rw [PpoOS.setEnvVar, hfind, Option.bind_eq_bind, Option.bind_some]
    simp only [hfree, Option.bind_eq_bind, Option.bind_some]
    rfl

/-- `unset_env_var` frees the slots of the name. -/
theorem unset (h : env.Texts) (name : CString) : ∃ env', unsetEnvVar env name = some env' ∧ env'.Texts ∧
    env'.slots = Represents.clearKey name env.slots := by
  choose y hy hholds hentry using fun i : Fin shellMaxEnvVars => ((h i).choose_spec.choose_spec).unset name
  have hmap : unsetEnvVar env name = some (Vector.ofFn y) := by
    -- the table as a function of the index
    have henv : env = (Vector.ofFn id).map fun i : Fin shellMaxEnvVars => env[i] := by
      ext i hi
      simp
    rw [unsetEnvVar, henv, Vector.mapM_map]
    have hpure : (EnvVar.unset name ∘ fun i : Fin shellMaxEnvVars => env[i]) = fun i => pure (y i) := funext hy
    rw [hpure, Vector.mapM_pure, Vector.map_ofFn]
    rfl
  refine ⟨_, hmap, fun i => by simpa using hholds i, ?_⟩
  funext i
  rw [Represents.clearKey, EnvTable.slots, EnvTable.slots, ← hentry]
  simp

end EnvTable.Texts

namespace EnvInv

/-- `get_env_var` looks a name up in the map. -/
theorem get (h : EnvInv env M) (name : CString) : getEnvVar env name = some (M name) := by
  rcases h.texts.find name with ⟨i, hfind, w, hi⟩ | ⟨-, hnone⟩
  · have hget : env[i.val]? = some env[i] := by simp
    rw [getEnvVar, hfind, h.represents.of_slot hi]
    simp only [Option.bind_eq_bind, Option.bind_some, hget, (h.texts.holds_of_slot hi).1.value]
    rfl
  · rw [h.texts.get_none hnone, h.represents.eq_none hnone]

/-- A name that is not in the map is in no slot. -/
theorem no_slot (h : EnvInv env M) (hn : M n = none) (i : Fin shellMaxEnvVars) (w : CString) :
    env.slots i ≠ some (n, w) := by
  intro hi
  rw [h.represents.of_slot hi] at hn
  cases hn

/-- A variable of the map gets another value. -/
theorem setEnvVar_old (h : EnvInv env M) (hn : M n ≠ none) (v : CString) : ∃ env',
    setEnvVar env n v = some (true, env') ∧ EnvInv env' (Function.update M n (some (v.take 127))) := by
  rcases h.texts.find n with ⟨i, hfind, w, hi⟩ | ⟨-, hnone⟩
  · obtain ⟨hx, hk⟩ := h.texts.holds_of_slot hi
    have hy := EnvVar.holds_value hx.name v
    refine ⟨_, ?_, h.texts.set i hy, ?_⟩
    · have hget : env[i.val]? = some env[i] := by simp
      rw [setEnvVar, hfind, Option.bind_eq_bind, Option.bind_some]
      simp only [hget, Option.bind_eq_bind, Option.bind_some, strncpyCut_eq _ _ (show 0 < shellMaxEnvValue by decide)]
      rfl
    · rw [slots_set, hy.entry_used hk]
      exact h.represents.put _ (.inl ⟨w, hi⟩)
  · exact absurd (h.represents.eq_none hnone) hn

/-- A new name of at most 31 characters gets a slot. -/
theorem setEnvVar_add (h : EnvInv env M) (hn : M n = none) (hne : n.length ≠ 0) (hlen : n.length ≤ 31)
    (hfree : ∃ i, env.slots i = none) (v : CString) : ∃ env', setEnvVar env n v = some (true, env') ∧
      EnvInv env' (Function.update M n (some (v.take 127))) := by
  obtain ⟨i, x, env', hi, hset, hx, rfl⟩ := h.texts.setEnvVar_new (h.no_slot hn) hfree v
  rw [CString.take_of_length_le hlen] at hx
  refine ⟨_, hset, h.texts.set i hx, ?_⟩
  rw [slots_set, hx.entry_used hne]
  exact h.represents.put _ (.inr ⟨hi, hn⟩)

/-- Without a free slot a new name is refused. -/
theorem setEnvVar_full (h : EnvInv env M) (hn : M n = none) (hfull : ∀ i, env.slots i ≠ none) (v : CString) :
    setEnvVar env n v = some (false, env) := by
  rcases h.texts.find n with ⟨i, -, w, hi⟩ | ⟨hfind, -⟩
  · exact absurd hi (h.no_slot hn i w)
  rcases h.texts.free with ⟨i, -, hi⟩ | ⟨hfree, -⟩
  · exact absurd hi (hfull i)
  · rw [setEnvVar, hfind, Option.bind_eq_bind, Option.bind_some]
    simp only [hfree, Option.bind_eq_bind, Option.bind_some]
    rfl

/-- `unset_env_var` takes the name out of the map. -/
theorem unsetEnvVar (h : EnvInv env M) (name : CString) :
    ∃ env', unsetEnvVar env name = some env' ∧ EnvInv env' (Function.update M name none) := by
  obtain ⟨env', hunset, htexts, hslots⟩ := h.texts.unset name
  refine ⟨env', hunset, htexts, ?_⟩
  rw [hslots]
  exact h.represents.clear name

end EnvInv

/-! ## Calls -/

/-- The name of a variable, which is not empty. -/
structure VarName where
  text : CString
  nonempty : text.length ≠ 0

inductive EnvCall where
  | set (name : VarName) (value : CString)
  | unset (name : VarName)

/-- The table after a call. -/
def EnvCall.after (env : EnvTable) : EnvCall → Option EnvTable
  | set name value => (setEnvVar env name.text value).map Prod.snd
  | unset name => unsetEnvVar env name.text

/-- The table after the calls. -/
def envAfter (calls : List EnvCall) : Option EnvTable := calls.foldlM EnvCall.after EnvTable.zero

/-- Whatever calls there were, names and values end with a NUL. -/
theorem envAfter_texts {calls : List EnvCall} (h : envAfter calls = some env) : env.Texts := by
  have hrun : ∀ {calls : List EnvCall} {env env' : EnvTable}, env.Texts → calls.foldlM EnvCall.after env = some env' →
      env'.Texts := by
    intro calls
    induction calls with
    | nil =>
      intro env env' hold h
      cases h
      exact hold
    | cons c calls ih =>
      intro env env' hold h
      rw [List.foldlM_cons, Option.bind_eq_bind] at h
      obtain ⟨mid, hmid, hrest⟩ := Option.bind_eq_some_iff.mp h
      refine ih ?_ hrest
      cases c with
      | set n v =>
        obtain ⟨done, env₁, hset, htexts⟩ := hold.setEnvVar n.text v
        rw [EnvCall.after, hset] at hmid
        cases hmid
        exact htexts
      | unset n =>
        obtain ⟨env₁, hunset, htexts, -⟩ := hold.unset n.text
        cases hunset.symm.trans hmid
        exact htexts
  exact hrun envInv_zero.texts h

/-- No name is the one of two variables. -/
def EnvTable.NamesDistinct (env : EnvTable) : Prop := ∀ (i j : Fin shellMaxEnvVars) (name : CString),
  env[i].isNamed name = some true → env[j].isNamed name = some true → i = j

/-- `env'` reads as `env` but for the name `n`, which has the value `w`. -/
structure IsUpdate (env env' : EnvTable) (n : CString) (w : Option CString) : Prop where
  here : getEnvVar env' n = some w
  others : ∀ m, m ≠ n → ∃ w, getEnvVar env m = some w ∧ getEnvVar env' m = some w

/-- The call is one on a finite map, and the names are distinct after it. -/
def EnvCall.Correct (env : EnvTable) : EnvCall → Prop
  | set n v => ∃ done env', setEnvVar env n.text v = some (done, env') ∧ env'.NamesDistinct ∧
    (done = true → IsUpdate env env' n.text (some (v.take 127))) ∧
    (done = false → env' = env ∧ ∃ names : Fin shellMaxEnvVars → CString, Function.Injective names ∧
      ∀ i, ∃ w, getEnvVar env (names i) = some (some w))
  | unset n => ∃ env', unsetEnvVar env n.text = some env' ∧ env'.NamesDistinct ∧ IsUpdate env env' n.text none

/-- The name of a call that sets one fits in an array, or no slot is free. -/
def EnvCall.Stored (env : EnvTable) : EnvCall → Prop
  | set n _ => n.text.length ≤ 31 ∨ ∀ i, env.slots i ≠ none
  | unset _ => True

namespace EnvInv

theorem namesDistinct (h : EnvInv env M) : env.NamesDistinct := by
  have hslot : ∀ {i : Fin shellMaxEnvVars} {name}, env[i].isNamed name = some true → ∃ w, env.slots i = some (name, w) := by
    intro i name hi
    obtain ⟨n, w, hx⟩ := h.texts i
    rw [hx.isNamed, hx.entry] at hi
    by_cases hn : n.length = 0
    · rw [if_pos hn] at hi
      cases hi
    · rw [if_neg hn] at hi
      obtain rfl := of_decide_eq_true (Option.some.inj hi)
      exact ⟨w, hx.entry_used hn⟩
  intro i j name hi hj
  obtain ⟨w, hi⟩ := hslot hi
  obtain ⟨w', hj⟩ := hslot hj
  exact h.represents.distinct hi hj

/-- An update of the map is one of what the table reads. -/
theorem isUpdate (h : EnvInv env M) (h' : EnvInv env' (Function.update M n u)) : IsUpdate env env' n u := by
  refine ⟨by rw [h'.get, Function.update_self], fun m hm => ⟨M m, h.get m, ?_⟩⟩
  rw [h'.get, Function.update_of_ne hm]

/-- A call that is stored is an operation of the map. -/
theorem step (h : EnvInv env M) {c : EnvCall} (hc : c.Stored env) :
    c.Correct env ∧ ∃ env' M', c.after env = some env' ∧ EnvInv env' M' := by
  cases c with
  | unset n =>
    obtain ⟨env', hrun, h'⟩ := h.unsetEnvVar n.text
    exact ⟨⟨env', hrun, h'.namesDistinct, h.isUpdate h'⟩, env', _, hrun, h'⟩
  | set n v =>
    have hdone : (∃ env', setEnvVar env n.text v = some (true, env') ∧
        EnvInv env' (Function.update M n.text (some (v.take 127)))) →
          (EnvCall.set n v).Correct env ∧ ∃ env' M', (EnvCall.set n v).after env = some env' ∧ EnvInv env' M' := by
      rintro ⟨env', hrun, h'⟩
      refine ⟨⟨true, env', hrun, h'.namesDistinct, fun _ => h.isUpdate h', fun h => (nomatch h)⟩, env', _, ?_, h'⟩
      rw [EnvCall.after, hrun]
      rfl
    by_cases hn : M n.text = none
    · by_cases hfull : ∀ i, env.slots i ≠ none
      · have hrun := h.setEnvVar_full hn hfull v
        refine ⟨⟨false, env, hrun, h.namesDistinct, fun h => (nomatch h), fun _ => ⟨rfl, ?_⟩⟩, env, M, ?_, h⟩
        · obtain ⟨key, hinj, hkey⟩ := h.represents.keys_of_full hfull
          refine ⟨key, hinj, fun i => ?_⟩
          obtain ⟨w, hw⟩ := Option.ne_none_iff_exists'.mp (hkey i)
          exact ⟨w, by rw [h.get, hw]⟩
        · rw [EnvCall.after, hrun]
          rfl
      · have hlen := hc.resolve_right hfull
        push Not at hfull
        exact hdone (h.setEnvVar_add hn n.nonempty hlen hfull v)
    · exact hdone (h.setEnvVar_old hn v)

/-- A longer name is put into a free slot, but is not found afterwards. -/
theorem stored_of_correct (h : EnvInv env M) {c : EnvCall} (hc : c.Correct env) : c.Stored env := by
  cases c with
  | unset n => trivial
  | set n v =>
    by_contra hns
    obtain ⟨hlen, hfull⟩ := not_or.mp hns
    push Not at hfull
    have hshort : ∀ i w, env.slots i ≠ some (n.text, w) := fun i w hi => hlen (h.texts.short hi)
    obtain ⟨i, x, env', -, hrun, hx, rfl⟩ := h.texts.setEnvVar_new hshort hfull v
    obtain ⟨done, env', hrun', -, hdone, -⟩ := hc
    rw [hrun] at hrun'
    obtain ⟨rfl, rfl⟩ := Prod.mk.inj (Option.some.inj hrun')
    have htexts := h.texts.set i hx
    have hnone := htexts.get_none fun j w hj => hlen (htexts.short hj)
    rw [(hdone rfl).here] at hnone
    cases hnone

end EnvInv

/-! ## Runs -/

/-- Calls that are stored keep the table a map. -/
theorem envAfter_inv (calls : List EnvCall)
    (h : ∀ before c, before ++ [c] <+: calls → ∃ env, envAfter before = some env ∧ c.Stored env) :
    ∃ env M, envAfter calls = some env ∧ EnvInv env M := by
  induction calls using List.reverseRecOn with
  | nil => exact ⟨_, _, rfl, envInv_zero⟩
  | append_singleton calls c ih =>
    obtain ⟨env, M, hrun, hinv⟩ := ih fun before d hd => h before d (hd.trans (List.prefix_append calls [c]))
    obtain ⟨env₁, hrun₁, hc⟩ := h calls c (List.prefix_refl _)
    obtain rfl := Option.some.inj (hrun₁.symm.trans hrun)
    obtain ⟨-, env', M', hafter, hinv'⟩ := hinv.step hc
    refine ⟨env', M', ?_, hinv'⟩
    have hcalls : calls.foldlM EnvCall.after EnvTable.zero = some env₁ := hrun
    rw [envAfter, List.foldlM_append, hcalls, Option.bind_eq_bind, Option.bind_some, List.foldlM_cons, hafter]
    rfl

/-- **The table is a finite map in a run of calls exactly where every name that is set has at most 31 characters
or comes when no slot is free.** -/
theorem env_map_iff (calls : List EnvCall) :
    (∀ before c, before ++ [c] <+: calls → ∃ env, envAfter before = some env ∧ env.NamesDistinct ∧ c.Correct env) ↔
      ∀ before c, before ++ [c] <+: calls → ∃ env, envAfter before = some env ∧ c.Stored env := by
  constructor
  · intro h before
    induction hlen : before.length using Nat.strong_induction_on generalizing before with
    | _ len ih =>
      intro c hc
      obtain ⟨env, M, hrun, hinv⟩ := envAfter_inv before fun b d hd =>
        ih b.length (by have := hd.length_le; simp at this; omega) b rfl d
          (hd.trans ((List.prefix_append before [c]).trans hc))
      obtain ⟨env', hrun', -, hcorrect⟩ := h before c hc
      obtain rfl := Option.some.inj (hrun'.symm.trans hrun)
      exact ⟨env', hrun', hinv.stored_of_correct hcorrect⟩
  · intro h before c hc
    obtain ⟨env, M, hrun, hinv⟩ := envAfter_inv before fun b d hd =>
      h b d (hd.trans ((List.prefix_append before [c]).trans hc))
    obtain ⟨env', hrun', hstored⟩ := h before c hc
    obtain rfl := Option.some.inj (hrun'.symm.trans hrun)
    exact ⟨env', hrun', hinv.namesDistinct, (hinv.step hstored).1⟩

/-! ## A name of 32 characters -/

/-- A name that an argument of the shell can be. -/
def variableName : CString := CString.ofChars (List.replicate 32 'A')

/-- `export` of that name. -/
def exportLong : EnvCall := .set ⟨variableName, by decide +kernel⟩ (CString.ofChars ['x'])

/-- The variable is set but has no value, and a second call gives its first 31 characters to another slot. -/
theorem longName_not_map : variableName.length < 64 ∧
    (envAfter [exportLong]).any (fun env => decide (getEnvVar env variableName = some none)) = true ∧
    (envAfter [exportLong, exportLong]).any (fun env => decide (env[0].isNamed (variableName.take 31) = some true ∧
      env[1].isNamed (variableName.take 31) = some true)) = true ∧
    ¬∀ before c, before ++ [c] <+: [exportLong, exportLong] →
      ∃ env, envAfter before = some env ∧ env.NamesDistinct ∧ c.Correct env := by
  have hruns : variableName.length < 64 ∧
      (envAfter [exportLong]).any (fun env => decide (getEnvVar env variableName = some none)) = true ∧
      (envAfter [exportLong, exportLong]).any (fun env => decide (env[0].isNamed (variableName.take 31) = some true ∧
        env[1].isNamed (variableName.take 31) = some true)) = true ∧
      ¬variableName.length ≤ 31 ∧ EnvTable.zero.slots ⟨0, by decide⟩ = none := by decide +kernel
  obtain ⟨hshort, hget, htwo, hlong, hfree⟩ := hruns
  refine ⟨hshort, hget, htwo, fun h => ?_⟩
  obtain ⟨env, hrun, -, hc⟩ := h [] exportLong ⟨[exportLong], rfl⟩
  obtain rfl : EnvTable.zero = env := Option.some.inj hrun
  rcases envInv_zero.stored_of_correct hc with hlen | hfull
  · exact hlong hlen
  · exact hfull _ hfree

end PpoOS
