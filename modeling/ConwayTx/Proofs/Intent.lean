import ConwayTx.Proofs.Draft

namespace ConwayTx

namespace Intent

structure Adds (i : Intent) (d d' : Draft) : Prop where
  payments : d'.outputs.map TxOut.value = d.outputs.map TxOut.value ++ i.payment?.toList
  notes : ∀ label, match i.note? label with
    | none => d'.metadata.get? label = d.metadata.get? label
    | some given => ∃ x, given.metadatum = .ok x ∧ d'.metadata.get? label = some x
  datums : d'.datums = match i.datum? with
    | none => d.datums
    | some data => d.datums.insert data.hash data

theorem Adds.nothing {i : Intent} {d d' : Draft} (pays : i.payment? = none)
    (notes : ∀ label, i.note? label = none) (attaches : i.datum? = none)
    (outputs : d'.outputs = d.outputs) (metadata : d'.metadata = d.metadata)
    (datums : d'.datums = d.datums) : i.Adds d d' where
  payments := by simp [pays, outputs]
  notes label := by simp [notes, metadata]
  datums := by simp [attaches, datums]

theorem Does.adds {i : Intent} {d d' : Draft} (h : i.Does d d') : i.Adds d d' := by
  cases h with
  | input pin =>
    cases attached : pin.datum <;>
      exact ⟨by simp [payment?, Draft.addInput, Draft.addDatum, attached],
        fun _ => by simp [note?, Draft.addInput, Draft.addDatum, attached],
        by simp [datum?, Draft.addInput, Draft.addDatum, attached]⟩
  | datum => exact ⟨(List.append_nil _).symm, fun _ => rfl, rfl⟩
  | send | lock | output => exact ⟨by simp [payment?], fun _ => rfl, rfl⟩
  | @note label given x read =>
    refine ⟨(List.append_nil _).symm, fun l => ?_, rfl⟩
    by_cases here : label = l
    · subst here
      simpa [note?] using read
    · simp [note?, here, OrdMap.get?_insert_of_ne]
  | reference | script => exact .nothing rfl (fun _ => rfl) rfl rfl rfl rfl
  | other silent keeps =>
    exact .nothing silent.payment silent.note silent.datum keeps.outputs keeps.metadata
      keeps.datums

variable {p : Params} {w w' : Work} {is : List Intent}

theorem performAll_concat {i : Intent} (h : performAll p w (is ++ [i]) = .ok w') :
    ∃ before, performAll p w is = .ok before ∧ i.Adds before.draft w'.draft := by
  obtain ⟨before, made, step⟩ := performAll_append_singleton.mp h
  exact ⟨before, made, (perform_does step).adds⟩

theorem performAll_payments (h : performAll p w is = .ok w') :
    w'.draft.outputs.map TxOut.value =
      w.draft.outputs.map TxOut.value ++ is.filterMap payment? := by
  induction is using List.reverseRecOn generalizing w' with
  | nil =>
    obtain rfl := Except.pure_eq_ok.mp h
    exact (List.append_nil _).symm
  | append_singleton is i ih =>
    obtain ⟨before, made, adds⟩ := performAll_concat h
    rw [adds.payments, ih made, List.append_assoc, List.filterMap_append]
    cases paid : i.payment? <;> simp [paid]

def lastNote (is : List Intent) (label : UInt64) : Option (Given Metadatum) :=
  is.reverse.findSome? (note? label)

theorem lastNote_concat (is : List Intent) (i : Intent) (label : UInt64) :
    lastNote (is ++ [i]) label = (i.note? label).or (lastNote is label) := by
  rw [lastNote, List.reverse_append, List.reverse_singleton, List.singleton_append,
    List.findSome?_cons, lastNote]
  cases i.note? label <;> rfl

theorem performAll_noted {g : Genesis} (h : performAll p { genesis := g } is = .ok w)
    {label : UInt64} {x : Metadatum} : w.draft.metadata.get? label = some x ↔
      ∃ given, lastNote is label = some given ∧ given.metadatum = .ok x := by
  induction is using List.reverseRecOn generalizing w with
  | nil =>
    obtain rfl := Except.pure_eq_ok.mp h
    simp [lastNote]
  | append_singleton is i ih =>
    obtain ⟨before, made, adds⟩ := performAll_concat h
    have here := adds.notes label
    rw [lastNote_concat]
    cases noted : i.note? label with
    | none =>
      rw [noted] at here
      rw [here, Option.none_or]
      exact ih made
    | some given =>
      rw [noted] at here
      obtain ⟨y, read, found⟩ := here
      simp [found, read]

theorem performAll_datums {g : Genesis} (h : performAll p { genesis := g } is = .ok w) :
    ∀ k data, w.draft.datums.get? k = some data →
      data.hash = k ∧ ∃ i ∈ is, i.datum? = some data := by
  induction is using List.reverseRecOn generalizing w with
  | nil =>
    obtain rfl := Except.pure_eq_ok.mp h
    exact fun k data found => nomatch found
  | append_singleton is i ih =>
    obtain ⟨before, made, adds⟩ := performAll_concat h
    have earlier : ∀ k data, before.draft.datums.get? k = some data →
        data.hash = k ∧ ∃ j ∈ is ++ [i], j.datum? = some data := by
      intro k data found
      obtain ⟨hash, j, mem, attaches⟩ := ih made k data found
      exact ⟨hash, j, List.mem_append_left _ mem, attaches⟩
    have now := adds.datums
    cases attached : i.datum? with
    | none =>
      rw [attached] at now
      rw [now]
      exact earlier
    | some data =>
      rw [attached] at now
      rw [now]
      exact OrdMap.forall_get?_insert earlier
        ⟨rfl, i, List.mem_append_right _ (List.mem_singleton.mpr rfl), attached⟩

end Intent

end ConwayTx
