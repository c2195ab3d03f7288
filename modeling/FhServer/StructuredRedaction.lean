import FhServer.Redaction

namespace FhServer.Redaction
open GoBytes GoText Option

mutual

-- Go values as far as the traversal sees them.
inductive Value
  | nothing
  | scalar (type value : Nat)
  | text (s : Bytes)
  -- A map with string keys, of type map[string]any or of another type.
  | map (any : Bool) (entries : Entries)
  | list (elements : Elements)
  | struct (fields : Fields)
  | pointer (target : Value)

inductive Entries
  | nil
  | cons (key : Bytes) (value : Value) (rest : Entries)

inductive Elements
  | nil
  | cons (value : Value) (rest : Elements)

inductive Fields
  | nil
  | cons (name : Bytes) (exported : Bool) (value : Value) (rest : Fields)
end
section
variable (lo : Lowering) (keys : List Bytes)

def isSensitive (k : Bytes) : Bool := keys.any fun s => lo.lower k == lo.lower s || (index (lo.lower s) (lo.lower k)).isSome

-- What RedactString returns; none where it does not return.
variable (text : Bytes → Option Bytes) (repl : Bytes)

mutual

def redactValue : Value → Option Value
  | .nothing => some .nothing
  | .scalar type value => some (.scalar type value)
  | .text s => (text s).map .text
  | .map true entries => (redactMap entries).map (.map true)
  | .map false entries => some (.map false entries)
  | .list elements => (redactElements elements).map .list
  | .struct fields => (redactFields fields).map (.map true)
  | .pointer target => some (.pointer target)

def redactMap : Entries → Option Entries
  | .nil => some .nil
  | .cons k v rest => map₂ (.cons k) (if isSensitive lo keys k then some (.text repl) else redactValue v) (redactMap rest)

def redactElements : Elements → Option Elements
  | .nil => some .nil
  | .cons v rest => map₂ .cons (redactValue v) (redactElements rest)

def redactFields : Fields → Option Entries
  | .nil => some .nil
  | .cons name exported v rest =>
    if exported then map₂ (.cons name) (if isSensitive lo keys name then some (.text repl) else redactValue v) (redactFields rest)
    else redactFields rest
end
end
section
variable (sensitive : Bytes → Bool)

mutual

-- Values that differ at most in what is stored under sensitive keys and exported fields.
inductive Same : Value → Value → Prop
  | nothing : Same .nothing .nothing
  | scalar : Same (.scalar type value) (.scalar type value)
  | text : Same (.text s) (.text s)
  | map (entries : SameEntries es fs) : Same (.map any es) (.map any fs)
  | list (elements : SameElements vs ws) : Same (.list vs) (.list ws)
  | struct (fields : SameFields fs gs) : Same (.struct fs) (.struct gs)
  | pointer (target : Same v w) : Same (.pointer v) (.pointer w)

inductive SameEntries : Entries → Entries → Prop
  | nil : SameEntries .nil .nil
  | hidden (named : sensitive k = true) (rest : SameEntries es fs) : SameEntries (.cons k v es) (.cons k w fs)
  | cons (value : Same v w) (rest : SameEntries es fs) : SameEntries (.cons k v es) (.cons k w fs)

inductive SameElements : Elements → Elements → Prop
  | nil : SameElements .nil .nil
  | cons (value : Same v w) (rest : SameElements vs ws) : SameElements (.cons v vs) (.cons w ws)

inductive SameFields : Fields → Fields → Prop
  | nil : SameFields .nil .nil
  | hidden (named : sensitive k = true) (rest : SameFields fs gs) : SameFields (.cons k true v fs) (.cons k true w gs)
  | cons (value : Same v w) (rest : SameFields fs gs) : SameFields (.cons k exported v fs) (.cons k exported w gs)
end

mutual

def clean : Value → Bool
  | .map _ entries => cleanEntries entries
  | .list elements => cleanElements elements
  | .struct fields => cleanFields fields
  | .pointer target => clean target
  | _ => true

def cleanEntries : Entries → Bool
  | .nil => true
  | .cons k v rest => !sensitive k && clean v && cleanEntries rest

def cleanElements : Elements → Bool
  | .nil => true
  | .cons v rest => clean v && cleanElements rest

def cleanFields : Fields → Bool
  | .nil => true
  | .cons k exported v rest => !(exported && sensitive k) && clean v && cleanFields rest
end

mutual

-- What the traversal reaches without looking inside has no sensitive key or exported field.
def covered : Value → Bool
  | .map true entries => coveredEntries entries
  | .map false entries => cleanEntries sensitive entries
  | .list elements => coveredElements elements
  | .struct fields => coveredFields fields
  | .pointer target => clean sensitive target
  | _ => true

def coveredEntries : Entries → Bool
  | .nil => true
  | .cons k v rest => (sensitive k || covered v) && coveredEntries rest

def coveredElements : Elements → Bool
  | .nil => true
  | .cons v rest => covered v && coveredElements rest

def coveredFields : Fields → Bool
  | .nil => true
  | .cons k exported v rest => (!exported || sensitive k || covered v) && coveredFields rest
end

mutual

-- The texts that are given to RedactString.
def reached : Value → List Bytes
  | .text s => [s]
  | .map true entries => reachedEntries entries
  | .list elements => reachedElements elements
  | .struct fields => reachedFields fields
  | _ => []

def reachedEntries : Entries → List Bytes
  | .nil => []
  | .cons k v rest => (if sensitive k then [] else reached v) ++ reachedEntries rest

def reachedElements : Elements → List Bytes
  | .nil => []
  | .cons v rest => reached v ++ reachedElements rest

def reachedFields : Fields → List Bytes
  | .nil => []
  | .cons k exported v rest => (if exported && !sensitive k then reached v else []) ++ reachedFields rest
end
end
variable {sensitive : Bytes → Bool}

mutual

theorem Same.refl : ∀ v, Same sensitive v v
  | .nothing => .nothing
  | .scalar _ _ => .scalar
  | .text _ => .text
  | .map _ entries => .map (SameEntries.refl entries)
  | .list elements => .list (SameElements.refl elements)
  | .struct fields => .struct (SameFields.refl fields)
  | .pointer target => .pointer (Same.refl target)

theorem SameEntries.refl : ∀ es, SameEntries sensitive es es
  | .nil => .nil
  | .cons _ v rest => .cons (Same.refl v) (SameEntries.refl rest)

theorem SameElements.refl : ∀ vs, SameElements sensitive vs vs
  | .nil => .nil
  | .cons v rest => .cons (Same.refl v) (SameElements.refl rest)

theorem SameFields.refl : ∀ fs, SameFields sensitive fs fs
  | .nil => .nil
  | .cons _ _ v rest => .cons (Same.refl v) (SameFields.refl rest)
end

mutual

theorem clean_eq : ∀ {v w}, Same sensitive v w → clean sensitive v = true → w = v
  | .nothing,_,.nothing,_ => rfl
  | .scalar _ _,_,.scalar,_ => rfl
  | .text _,_,.text,_ => rfl
  | .map _ _,_,.map entries,free => by rw [cleanEntries_eq entries free]
  | .list _,_,.list elements,free => by rw [cleanElements_eq elements free]
  | .struct _,_,.struct fields,free => by rw [cleanFields_eq fields free]
  | .pointer _,_,.pointer target,free => by rw [clean_eq target free]

theorem cleanEntries_eq : ∀ {es fs}, SameEntries sensitive es fs → cleanEntries sensitive es = true → fs = es
  | .nil,_,.nil,_ => rfl
  | .cons _ _ _,_,.hidden named _,free => by simp [cleanEntries,named] at free
  | .cons _ _ _,_,.cons value rest,free => by
    simp only [cleanEntries,Bool.and_eq_true] at free
    rw [clean_eq value free.1.2,cleanEntries_eq rest free.2]

theorem cleanElements_eq : ∀ {vs ws}, SameElements sensitive vs ws → cleanElements sensitive vs = true → ws = vs
  | .nil,_,.nil,_ => rfl
  | .cons _ _,_,.cons value rest,free => by
    simp only [cleanElements,Bool.and_eq_true] at free
    rw [clean_eq value free.1,cleanElements_eq rest free.2]

theorem cleanFields_eq : ∀ {fs gs}, SameFields sensitive fs gs → cleanFields sensitive fs = true → gs = fs
  | .nil,_,.nil,_ => rfl
  | .cons _ _ _ _,_,.hidden named _,free => by simp [cleanFields,named] at free
  | .cons _ _ _ _,_,.cons value rest,free => by
    simp only [cleanFields,Bool.and_eq_true] at free
    rw [clean_eq value free.1.2,cleanFields_eq rest free.2]
end

theorem pointer_ne (v : Value) : Value.pointer v ≠ v := by
  intro same
  have sizes := congrArg sizeOf same
  simp at sizes

mutual

theorem changed_of_not_clean : ∀ v, clean sensitive v = false → ∃ w, Same sensitive v w ∧ w ≠ v
  | .nothing,h | .scalar _ _,h | .text _,h => by simp [clean] at h
  | .map any entries,h => by
    obtain ⟨fs,same,other⟩ := changed_entries entries h
    exact ⟨.map any fs,.map same,by simpa using other⟩
  | .list elements,h => by
    obtain ⟨ws,same,other⟩ := changed_elements elements h
    exact ⟨.list ws,.list same,by simpa using other⟩
  | .struct fields,h => by
    obtain ⟨gs,same,other⟩ := changed_fields fields h
    exact ⟨.struct gs,.struct same,by simpa using other⟩
  | .pointer target,h => by
    obtain ⟨w,same,other⟩ := changed_of_not_clean target h
    exact ⟨.pointer w,.pointer same,by simpa using other⟩

theorem changed_entries : ∀ es, cleanEntries sensitive es = false → ∃ fs, SameEntries sensitive es fs ∧ fs ≠ es
  | .nil,h => by simp [cleanEntries] at h
  | .cons k v rest,h => by
    cases named : sensitive k with
    | true => exact ⟨.cons k (.pointer v) rest,.hidden named (SameEntries.refl rest),by simp [pointer_ne]⟩
    | false =>
      cases inner : clean sensitive v with
      | false =>
        obtain ⟨w,same,other⟩ := changed_of_not_clean v inner
        exact ⟨.cons k w rest,.cons same (SameEntries.refl rest),by simpa using other⟩
      | true =>
        obtain ⟨fs,same,other⟩ := changed_entries rest (by simpa [cleanEntries,named,inner] using h)
        exact ⟨.cons k v fs,.cons (Same.refl v) same,by simpa using other⟩

theorem changed_elements : ∀ vs, cleanElements sensitive vs = false → ∃ ws, SameElements sensitive vs ws ∧ ws ≠ vs
  | .nil,h => by simp [cleanElements] at h
  | .cons v rest,h => by
    cases inner : clean sensitive v with
    | false =>
      obtain ⟨w,same,other⟩ := changed_of_not_clean v inner
      exact ⟨.cons w rest,.cons same (SameElements.refl rest),by simpa using other⟩
    | true =>
      obtain ⟨ws,same,other⟩ := changed_elements rest (by simpa [cleanElements,inner] using h)
      exact ⟨.cons v ws,.cons (Same.refl v) same,by simpa using other⟩

theorem changed_fields : ∀ fs, cleanFields sensitive fs = false → ∃ gs, SameFields sensitive fs gs ∧ gs ≠ fs
  | .nil,h => by simp [cleanFields] at h
  | .cons k exported v rest,h => by
    cases named : exported && sensitive k with
    | true =>
      simp only [Bool.and_eq_true] at named
      obtain ⟨rfl,named⟩ := named
      exact ⟨.cons k true (.pointer v) rest,.hidden named (SameFields.refl rest),by simp [pointer_ne]⟩
    | false =>
      cases inner : clean sensitive v with
      | false =>
        obtain ⟨w,same,other⟩ := changed_of_not_clean v inner
        exact ⟨.cons k exported w rest,.cons same (SameFields.refl rest),by simpa using other⟩
      | true =>
        obtain ⟨gs,same,other⟩ := changed_fields rest (by simpa [cleanFields,named,inner] using h)
        exact ⟨.cons k exported v gs,.cons (Same.refl v) same,by simpa using other⟩
end
section
variable {lo : Lowering} {keys : List Bytes} {text : Bytes → Option Bytes} {repl : Bytes}

mutual

theorem covered_same : ∀ {v w}, Same (isSensitive lo keys) v w → covered (isSensitive lo keys) v = true →
    redactValue lo keys text repl w = redactValue lo keys text repl v
  | .nothing,_,.nothing,_ => rfl
  | .scalar _ _,_,.scalar,_ => rfl
  | .text _,_,.text,_ => rfl
  | .map true _,_,.map entries,free => by simp only [redactValue,coveredEntries_same entries free]
  | .map false _,_,.map entries,free => by rw [cleanEntries_eq entries free]
  | .list _,_,.list elements,free => by simp only [redactValue,coveredElements_same elements free]
  | .struct _,_,.struct fields,free => by simp only [redactValue,coveredFields_same fields free]
  | .pointer _,_,.pointer target,free => by rw [clean_eq target free]

theorem coveredEntries_same : ∀ {es fs}, SameEntries (isSensitive lo keys) es fs → coveredEntries (isSensitive lo keys) es = true →
    redactMap lo keys text repl fs = redactMap lo keys text repl es
  | .nil,_,.nil,_ => rfl
  | .cons k _ _,_,.hidden named rest,free => by
    simp only [coveredEntries,Bool.and_eq_true] at free
    simp only [redactMap,named,if_true,coveredEntries_same rest free.2]
  | .cons k _ _,_,.cons value rest,free => by
    simp only [coveredEntries,Bool.and_eq_true,Bool.or_eq_true] at free
    rcases free.1 with named | inner
    · simp only [redactMap,named,if_true,coveredEntries_same rest free.2]
    · simp only [redactMap,covered_same value inner,coveredEntries_same rest free.2]

theorem coveredElements_same : ∀ {vs ws}, SameElements (isSensitive lo keys) vs ws → coveredElements (isSensitive lo keys) vs = true →
    redactElements lo keys text repl ws = redactElements lo keys text repl vs
  | .nil,_,.nil,_ => rfl
  | .cons _ _,_,.cons value rest,free => by
    simp only [coveredElements,Bool.and_eq_true] at free
    simp only [redactElements,covered_same value free.1,coveredElements_same rest free.2]

theorem coveredFields_same : ∀ {fs gs}, SameFields (isSensitive lo keys) fs gs → coveredFields (isSensitive lo keys) fs = true →
    redactFields lo keys text repl gs = redactFields lo keys text repl fs
  | .nil,_,.nil,_ => rfl
  | .cons k _ _ _,_,.hidden named rest,free => by
    simp only [coveredFields,Bool.and_eq_true] at free
    simp only [redactFields,named,if_true,coveredFields_same rest free.2]
  | .cons k false _ _,_,.cons value rest,free => by
    simp only [coveredFields,Bool.and_eq_true] at free
    simp [redactFields,coveredFields_same rest free.2]
  | .cons k true _ _,_,.cons value rest,free => by
    simp only [coveredFields,Bool.and_eq_true,Bool.or_eq_true,Bool.not_true,Bool.false_eq_true,false_or] at free
    rcases free.1 with named | inner
    · simp only [redactFields,named,if_true,coveredFields_same rest free.2]
    · simp only [redactFields,covered_same value inner,coveredFields_same rest free.2]
end

mutual

theorem Same.reached : ∀ {v w}, Same sensitive v w → reached sensitive w = reached sensitive v
  | .nothing,_,.nothing => rfl
  | .scalar _ _,_,.scalar => rfl
  | .text _,_,.text => rfl
  | .map true _,_,.map entries => SameEntries.reached entries
  | .map false _,_,.map _ => rfl
  | .list _,_,.list elements => SameElements.reached elements
  | .struct _,_,.struct fields => SameFields.reached fields
  | .pointer _,_,.pointer _ => rfl

theorem SameEntries.reached : ∀ {es fs}, SameEntries sensitive es fs → reachedEntries sensitive fs = reachedEntries sensitive es
  | .nil,_,.nil => rfl
  | .cons k _ _,_,.hidden named rest => by simp only [reachedEntries,named,if_true,SameEntries.reached rest]
  | .cons k _ _,_,.cons value rest => by simp only [reachedEntries,Same.reached value,SameEntries.reached rest]

theorem SameElements.reached : ∀ {vs ws}, SameElements sensitive vs ws → reachedElements sensitive ws = reachedElements sensitive vs
  | .nil,_,.nil => rfl
  | .cons _ _,_,.cons value rest => by simp only [reachedElements,Same.reached value,SameElements.reached rest]

theorem SameFields.reached : ∀ {fs gs}, SameFields sensitive fs gs → reachedFields sensitive gs = reachedFields sensitive fs
  | .nil,_,.nil => rfl
  | .cons k _ _ _,_,.hidden named rest => by simp [reachedFields,named,SameFields.reached rest]
  | .cons k _ _ _,_,.cons value rest => by simp only [reachedFields,Same.reached value,SameFields.reached rest]
end

mutual

theorem stuck_value : ∀ v, redactValue lo keys text repl v = none ↔ ∃ s ∈ reached (isSensitive lo keys) v, text s = none
  | .nothing | .scalar _ _ | .map false _ | .pointer _ => by simp [redactValue,reached]
  | .text s => by simp [redactValue,reached]
  | .map true entries => by rw [redactValue,map_eq_none_iff,reached,stuck_entries entries]
  | .list elements => by rw [redactValue,map_eq_none_iff,reached,stuck_elements elements]
  | .struct fields => by rw [redactValue,map_eq_none_iff,reached,stuck_fields fields]

theorem stuck_entries : ∀ es, redactMap lo keys text repl es = none ↔ ∃ s ∈ reachedEntries (isSensitive lo keys) es, text s = none
  | .nil => by simp [redactMap,reachedEntries]
  | .cons k v rest => by
    rw [redactMap,map₂_eq_none_iff,stuck_entries rest,reachedEntries]
    cases isSensitive lo keys k <;> simp [stuck_value v,or_and_right,exists_or]

theorem stuck_elements : ∀ vs, redactElements lo keys text repl vs = none ↔ ∃ s ∈ reachedElements (isSensitive lo keys) vs, text s = none
  | .nil => by simp [redactElements,reachedElements]
  | .cons v rest => by
    rw [redactElements,map₂_eq_none_iff,stuck_elements rest,reachedElements]
    simp [stuck_value v,or_and_right,exists_or]

theorem stuck_fields : ∀ fs, redactFields lo keys text repl fs = none ↔ ∃ s ∈ reachedFields (isSensitive lo keys) fs, text s = none
  | .nil => by simp [redactFields,reachedFields]
  | .cons k false v rest => by simp [redactFields,reachedFields,stuck_fields rest]
  | .cons k true v rest => by
    rw [redactFields,if_pos rfl,map₂_eq_none_iff,stuck_fields rest,reachedFields]
    cases isSensitive lo keys k <;> simp [stuck_value v,or_and_right,exists_or]
end

-- A result shows each of the two parts it is made of.
theorem shows_parts {f : α → β → γ} (inj : Function.Injective2 f) (made : map₂ f a b = some out) (other : a' ≠ a ∨ b' ≠ b) :
    map₂ f a' b' ≠ some out := by
  intro again
  obtain ⟨x,y,left,right,rfl⟩ := map₂_eq_some_iff.mp made
  obtain ⟨x',y',left',right',same⟩ := map₂_eq_some_iff.mp again
  obtain ⟨rfl,rfl⟩ := inj same
  exact other.elim (fun differ => differ (left'.trans left.symm)) fun differ => differ (right'.trans right.symm)

theorem entry_parts {k : Bytes} : Function.Injective2 (Entries.cons k) := by
  rintro v w es fs ⟨⟩
  exact ⟨rfl,rfl⟩

theorem element_parts : Function.Injective2 Elements.cons := by
  rintro v w vs ws ⟨⟩
  exact ⟨rfl,rfl⟩

mutual

theorem shown_of_not_covered : ∀ v out, covered (isSensitive lo keys) v = false → redactValue lo keys text repl v = some out →
    ∃ w, Same (isSensitive lo keys) v w ∧ redactValue lo keys text repl w ≠ some out
  | .nothing,_,h,_ | .scalar _ _,_,h,_ | .text _,_,h,_ => by simp [covered] at h
  | .map true entries,_,h,made => by
    obtain ⟨es,inner,rfl⟩ := map_eq_some_iff.mp made
    obtain ⟨fs,same,other⟩ := shown_entries entries es h inner
    exact ⟨.map true fs,.map same,by simpa [redactValue] using other⟩
  | .map false entries,_,h,made => by
    obtain ⟨fs,same,other⟩ := changed_entries entries h
    refine ⟨.map false fs,.map same,?_⟩
    cases some.inj made
    simpa [redactValue] using other
  | .list elements,_,h,made => by
    obtain ⟨vs,inner,rfl⟩ := map_eq_some_iff.mp made
    obtain ⟨ws,same,other⟩ := shown_elements elements vs h inner
    exact ⟨.list ws,.list same,by simpa [redactValue] using other⟩
  | .struct fields,_,h,made => by
    obtain ⟨es,inner,rfl⟩ := map_eq_some_iff.mp made
    obtain ⟨gs,same,other⟩ := shown_fields fields es h inner
    exact ⟨.struct gs,.struct same,by simpa [redactValue] using other⟩
  | .pointer target,_,h,made => by
    obtain ⟨w,same,other⟩ := changed_of_not_clean target h
    refine ⟨.pointer w,.pointer same,?_⟩
    cases some.inj made
    simpa [redactValue] using other

theorem shown_entries : ∀ es out, coveredEntries (isSensitive lo keys) es = false → redactMap lo keys text repl es = some out →
    ∃ fs, SameEntries (isSensitive lo keys) es fs ∧ redactMap lo keys text repl fs ≠ some out
  | .nil,_,h,_ => by simp [coveredEntries] at h
  | .cons k v rest,out,h,made => by
    simp only [redactMap] at made
    cases first : isSensitive lo keys k || covered (isSensitive lo keys) v with
    | false =>
      simp only [Bool.or_eq_false_iff] at first
      simp only [first.1,Bool.false_eq_true,if_false] at made
      obtain ⟨v',rest',value,later,rfl⟩ := map₂_eq_some_iff.mp made
      obtain ⟨w,same,other⟩ := shown_of_not_covered v v' first.2 value
      refine ⟨.cons k w rest,.cons same (SameEntries.refl rest),?_⟩
      simp only [redactMap,first.1,Bool.false_eq_true,if_false]
      exact shows_parts entry_parts made (.inl (value ▸ other))
    | true =>
      obtain ⟨v',rest',value,later,rfl⟩ := map₂_eq_some_iff.mp made
      obtain ⟨fs,same,other⟩ := shown_entries rest rest' (by simpa [coveredEntries,first] using h) later
      refine ⟨.cons k v fs,.cons (Same.refl v) same,?_⟩
      simp only [redactMap]
      exact shows_parts entry_parts made (.inr (later ▸ other))

theorem shown_elements : ∀ vs out, coveredElements (isSensitive lo keys) vs = false → redactElements lo keys text repl vs = some out →
    ∃ ws, SameElements (isSensitive lo keys) vs ws ∧ redactElements lo keys text repl ws ≠ some out
  | .nil,_,h,_ => by simp [coveredElements] at h
  | .cons v rest,out,h,made => by
    simp only [redactElements] at made
    obtain ⟨v',rest',value,later,rfl⟩ := map₂_eq_some_iff.mp made
    cases first : covered (isSensitive lo keys) v with
    | false =>
      obtain ⟨w,same,other⟩ := shown_of_not_covered v v' first value
      exact ⟨.cons w rest,.cons same (SameElements.refl rest),shows_parts element_parts made (.inl (value ▸ other))⟩
    | true =>
      obtain ⟨ws,same,other⟩ := shown_elements rest rest' (by simpa [coveredElements,first] using h) later
      exact ⟨.cons v ws,.cons (Same.refl v) same,shows_parts element_parts made (.inr (later ▸ other))⟩

theorem shown_fields : ∀ fs out, coveredFields (isSensitive lo keys) fs = false → redactFields lo keys text repl fs = some out →
    ∃ gs, SameFields (isSensitive lo keys) fs gs ∧ redactFields lo keys text repl gs ≠ some out
  | .nil,_,h,_ => by simp [coveredFields] at h
  | .cons k false v rest,out,h,made => by
    obtain ⟨gs,same,other⟩ := shown_fields rest out (by simpa [coveredFields] using h) (by simpa [redactFields] using made)
    exact ⟨.cons k false v gs,.cons (Same.refl v) same,by simpa [redactFields] using other⟩
  | .cons k true v rest,out,h,made => by
    simp only [redactFields,if_true] at made
    cases first : isSensitive lo keys k || covered (isSensitive lo keys) v with
    | false =>
      simp only [Bool.or_eq_false_iff] at first
      simp only [first.1,Bool.false_eq_true,if_false] at made
      obtain ⟨v',rest',value,later,rfl⟩ := map₂_eq_some_iff.mp made
      obtain ⟨w,same,other⟩ := shown_of_not_covered v v' first.2 value
      refine ⟨.cons k true w rest,.cons same (SameFields.refl rest),?_⟩
      simp only [redactFields,first.1,Bool.false_eq_true,if_false,if_true]
      exact shows_parts entry_parts made (.inl (value ▸ other))
    | true =>
      obtain ⟨v',rest',value,later,rfl⟩ := map₂_eq_some_iff.mp made
      obtain ⟨gs,same,other⟩ := shown_fields rest rest' (by simpa [coveredFields,first] using h) later
      refine ⟨.cons k true v gs,.cons (Same.refl v) same,?_⟩
      simp only [redactFields,if_true]
      exact shows_parts entry_parts made (.inr (later ▸ other))
end
end

-- Changes of sensitive values do not show in the result of RedactMap exactly where RedactString does not return for a text
-- that it reaches, or no map of another type and no pointer that it reaches holds a sensitive value.
theorem redactMap_hides_iff (lo : Lowering) (keys : List Bytes) (text : Bytes → Option Bytes) (repl : Bytes) (entries : Entries) :
    (∀ others, SameEntries (isSensitive lo keys) entries others → redactMap lo keys text repl others = redactMap lo keys text repl entries) ↔
      (∃ s ∈ reachedEntries (isSensitive lo keys) entries, text s = none) ∨ coveredEntries (isSensitive lo keys) entries = true := by
  constructor
  · intro hides
    cases made : redactMap lo keys text repl entries with
    | none => exact .inl ((stuck_entries entries).mp made)
    | some out =>
      apply Or.inr
      apply Classical.byContradiction
      intro uncovered
      obtain ⟨others,same,shown⟩ := shown_entries entries out (by simpa using uncovered) made
      exact shown ((hides others same).trans made)
  · intro condition others same
    rcases condition with stuck | free
    · rw [(stuck_entries entries).mpr stuck,stuck_entries,same.reached]
      exact stuck
    · exact coveredEntries_same same free

def settings (value : Value) : Entries := .cons (ascii "settings") value .nil

def inOtherMap (password : Bytes) : Value := .map false (.cons (ascii "password") (.text password) .nil)
def behindPointer (password : Bytes) : Value := .pointer (.struct (.cons (ascii "Password") true (.text password) .nil))

theorem password_shown :
    SameEntries (isSensitive lowering defaultKeys) (settings (inOtherMap (ascii "x"))) (settings (inOtherMap (ascii "y"))) ∧
    redactMap lowering defaultKeys some redactedText (settings (inOtherMap (ascii "x"))) ≠
      redactMap lowering defaultKeys some redactedText (settings (inOtherMap (ascii "y"))) ∧
    SameEntries (isSensitive lowering defaultKeys) (settings (behindPointer (ascii "x"))) (settings (behindPointer (ascii "y"))) ∧
    redactMap lowering defaultKeys some redactedText (settings (behindPointer (ascii "x"))) ≠
      redactMap lowering defaultKeys some redactedText (settings (behindPointer (ascii "y"))) := by
  have plain : isSensitive lowering defaultKeys (ascii "settings") = false := by decide
  have other : ascii "x" ≠ ascii "y" := by decide
  refine ⟨?_,?_,?_,?_⟩
  · exact .cons (.map (.hidden (by decide) .nil)) .nil
  · simp [settings,inOtherMap,redactMap,plain,redactValue,other]
  · exact .cons (.pointer (.struct (.hidden (by decide) .nil))) .nil
  · simp [settings,behindPointer,redactMap,plain,redactValue,other]
end FhServer.Redaction
