import Catena.Codegen.DeviceModel
import Catena.Framework.Throws

/-!
# What becomes of the imports

The content of a file is walked relative to that file, then relative to the file that imports
it, and so on outwards. One more import at the root is followed by each of these walks. So the
result has an import left when the walks end too early, and content of another file when one
at the root means different files relative to the file it is in and to the one around.
-/

namespace Catena.Codegen

open Catena.Framework

variable {β U : Type}

/-! ## One turn of a walk -/

variable {env : Env β U} {walk' : Descs β → U → Except JsError (Descs β)}

theorem loadWith_ok {schemaName : String} {url : U} {d : Desc β}
    (h : loadWith env walk' schemaName url = .ok d) :
    ∃ data, env.validate schemaName url = .ok (some data) ∧
      d.importUrl = data.importUrl ∧ d.body = data.body ∧
      walk' data.params url = .ok d.params ∧ walk' data.commands url = .ok d.commands := by
  rw [loadWith] at h
  obtain ⟨found, hfound, h⟩ := bind_eq_ok_iff.mp h
  cases found with
  | none => exact nomatch h
  | some data =>
    obtain ⟨params, hparams, h⟩ := bind_eq_ok_iff.mp h
    obtain ⟨commands, hcommands, h⟩ := bind_eq_ok_iff.mp h
    obtain rfl := Except.ok.inj h
    exact ⟨data, hfound, rfl, rfl, hparams, hcommands⟩

theorem walkParam_ok {d d' : Desc β} {o : U} (h : walkParam env walk' d o = .ok d') :
    ∃ d₁, importParam env walk' d o = .ok d₁ ∧ d'.importUrl = d₁.importUrl ∧ d'.body = d₁.body ∧
      walk' d₁.params o = .ok d'.params ∧ walk' d₁.commands o = .ok d'.commands := by
  rw [walkParam] at h
  obtain ⟨d₁, hd, h⟩ := bind_eq_ok_iff.mp h
  obtain ⟨params, hparams, h⟩ := bind_eq_ok_iff.mp h
  obtain ⟨commands, hcommands, h⟩ := bind_eq_ok_iff.mp h
  obtain rfl := Except.ok.inj h
  exact ⟨d₁, hd, rfl, rfl, hparams, hcommands⟩

theorem walkParam_plain {d d' : Desc β} {o : U} (hd : d.importUrl = none)
    (h : walkParam env walk' d o = .ok d') :
    d'.importUrl = none ∧ d'.body = d.body ∧ walk' d.params o = .ok d'.params ∧
      walk' d.commands o = .ok d'.commands := by
  obtain ⟨d₁, himport, hurl, hbody, hparams, hcommands⟩ := walkParam_ok h
  simp only [importParam, hd] at himport
  obtain rfl := Except.ok.inj himport
  exact ⟨hurl.trans hd, hbody, hparams, hcommands⟩

theorem walkParam_import {d d' : Desc β} {o : U} {ref : String} (hd : d.importUrl = some ref)
    (h : walkParam env walk' d o = .ok d') :
    ∃ u data, env.newUrl ref o = .ok u ∧ env.validate "param" u = .ok (some data) ∧
      d'.importUrl = data.importUrl ∧ d'.body = data.body ∧
      [u, o].foldlM walk' data.params = .ok d'.params ∧
      [u, o].foldlM walk' data.commands = .ok d'.commands := by
  obtain ⟨d₁, himport, hurl, hbody, hparams, hcommands⟩ := walkParam_ok h
  simp only [importParam, hd] at himport
  obtain ⟨u, hu, himport⟩ := bind_eq_ok_iff.mp himport
  split at himport
  · obtain ⟨data, hdata, hurl₁, hbody₁, hparams₁, hcommands₁⟩ := loadWith_ok himport
    refine ⟨u, data, hu, hdata, hurl.trans hurl₁, hbody.trans hbody₁, ?_, ?_⟩
    · exact bind_eq_ok_iff.mpr ⟨d₁.params, hparams₁,
        bind_eq_ok_iff.mpr ⟨d'.params, hparams, rfl⟩⟩
    · exact bind_eq_ok_iff.mpr ⟨d₁.commands, hcommands₁,
        bind_eq_ok_iff.mpr ⟨d'.commands, hcommands, rfl⟩⟩
  · exact nomatch himport

/-! ## All walks of one entry -/

theorem fold_plain {stack : List U} {d d' : Desc β} (hd : d.importUrl = none)
    (h : stack.foldlM (walkParam env walk') d = .ok d') :
    d'.importUrl = none ∧ d'.body = d.body ∧ stack.foldlM walk' d.params = .ok d'.params ∧
      stack.foldlM walk' d.commands = .ok d'.commands := by
  induction stack generalizing d with
  | nil =>
    obtain rfl := Except.ok.inj h
    exact ⟨hd, rfl, rfl, rfl⟩
  | cons o stack ih =>
    obtain ⟨d₁, hd₁, h⟩ := foldlM_cons_ok h
    obtain ⟨hurl, hbody, hparams, hcommands⟩ := walkParam_plain hd hd₁
    obtain ⟨hurl', hbody', hparams', hcommands'⟩ := ih hurl h
    refine ⟨hurl', hbody'.trans hbody, ?_, ?_⟩
    · exact bind_eq_ok_iff.mpr ⟨d₁.params, hparams, hparams'⟩
    · exact bind_eq_ok_iff.mpr ⟨d₁.commands, hcommands, hcommands'⟩

/-- What an entry with an import becomes, if the walks reach a file for it. -/
theorem fold_reaches {stack stack' : List U} {u v : U} (hv : Reaches env stack u v stack')
    {o : U} {around : List U} (hs : stack = o :: around) {d d' : Desc β} {ref : String}
    (hd : d.importUrl = some ref) (hu : env.newUrl ref o = .ok u)
    (h : stack.foldlM (walkParam env walk') d = .ok d') :
    ∃ data, env.validate "param" v = .ok (some data) ∧ data.importUrl = none ∧
      d'.importUrl = none ∧ d'.body = data.body ∧
      (v :: stack').foldlM walk' data.params = .ok d'.params ∧
      (v :: stack').foldlM walk' data.commands = .ok d'.commands := by
  induction hv generalizing o around d ref with
  | plain hdata hroot =>
    subst hs
    obtain ⟨d₁, hd₁, h⟩ := foldlM_cons_ok h
    obtain ⟨u', data, hu', hdata', hurl, hbody, hparams, hcommands⟩ := walkParam_import hd hd₁
    obtain rfl := Except.ok.inj (hu.symm.trans hu')
    obtain rfl := Option.some.inj (Except.ok.inj (hdata.symm.trans hdata'))
    obtain ⟨hurl', hbody', hparams', hcommands'⟩ := fold_plain (hurl.trans hroot) h
    refine ⟨_, hdata, hroot, hurl', hbody'.trans hbody, ?_, ?_⟩
    · exact foldlM_append_ok hparams hparams'
    · exact foldlM_append_ok hcommands hcommands'
  | root hdata hroot hurl' _ ih =>
    obtain ⟨rfl, rfl⟩ := List.cons.inj hs
    obtain ⟨d₁, hd₁, h⟩ := foldlM_cons_ok h
    obtain ⟨u', data, hu', hdata', hurl, _⟩ := walkParam_import hd hd₁
    obtain rfl := Except.ok.inj (hu.symm.trans hu')
    obtain rfl := Option.some.inj (Except.ok.inj (hdata.symm.trans hdata'))
    exact ih rfl (hurl.trans hroot) hurl' h

/-- If the walks leave no import, they have reached a file. -/
theorem exists_reaches {o : U} {around : List U} {d d' : Desc β} {ref : String}
    (hd : d.importUrl = some ref) (h : (o :: around).foldlM (walkParam env walk') d = .ok d')
    (hd' : d'.importUrl = none) {u : U} (hu : env.newUrl ref o = .ok u) :
    ∃ v stack', Reaches env (o :: around) u v stack' := by
  induction around generalizing o d ref u with
  | nil =>
    obtain ⟨d₁, hd₁, h⟩ := foldlM_cons_ok h
    obtain rfl := Except.ok.inj h
    obtain ⟨u', data, hu', hdata, hurl, _⟩ := walkParam_import hd hd₁
    obtain rfl := Except.ok.inj (hu.symm.trans hu')
    exact ⟨u, [o], Reaches.plain hdata (hurl.symm.trans hd')⟩
  | cons o' around ih =>
    obtain ⟨d₁, hd₁, h⟩ := foldlM_cons_ok h
    obtain ⟨u', data, hu', hdata, hurl, _⟩ := walkParam_import hd hd₁
    obtain rfl := Except.ok.inj (hu.symm.trans hu')
    cases hroot : data.importUrl with
    | none => exact ⟨u, o :: o' :: around, Reaches.plain hdata hroot⟩
    | some ref' =>
      have hd₁' := hurl.trans hroot
      obtain ⟨d₂, hd₂, _⟩ := foldlM_cons_ok h
      obtain ⟨u', _, hu', _⟩ := walkParam_import hd₁' hd₂
      obtain ⟨v, stack', hv⟩ := ih hd₁' h hu'
      exact ⟨v, stack', Reaches.root hdata hroot hu' hv⟩

/-! ## All walks of the entries -/

theorem fold_entries_nil {stack : List U} {entries' : Entries β}
    (h : stack.foldlM (walkEntries env walk') .nil = .ok entries') : entries' = .nil :=
  foldlM_fixed (fun _ => rfl) h

theorem fold_entries_cons {stack : List U} {name : String} {d : Desc β} {rest entries' : Entries β}
    (h : stack.foldlM (walkEntries env walk') (.cons name d rest) = .ok entries') :
    ∃ d' rest', entries' = .cons name d' rest' ∧
      stack.foldlM (walkParam env walk') d = .ok d' ∧
      stack.foldlM (walkEntries env walk') rest = .ok rest' := by
  induction stack generalizing d rest with
  | nil => exact ⟨d, rest, (Except.ok.inj h).symm, rfl, rfl⟩
  | cons o stack ih =>
    obtain ⟨entries₁, h₁, h⟩ := foldlM_cons_ok h
    rw [walkEntries] at h₁
    obtain ⟨d₁, hd, h₁⟩ := bind_eq_ok_iff.mp h₁
    obtain ⟨rest₁, hrest, h₁⟩ := bind_eq_ok_iff.mp h₁
    obtain rfl := Except.ok.inj h₁
    obtain ⟨d', rest', rfl, hd', hrest'⟩ := ih h
    refine ⟨d', rest', rfl, ?_, ?_⟩
    · exact bind_eq_ok_iff.mpr ⟨d₁, hd, hd'⟩
    · exact bind_eq_ok_iff.mpr ⟨rest₁, hrest, hrest'⟩

theorem walk_absent (levels : Nat) (url : U) : walk env levels .absent url = .ok .absent := by
  cases levels <;> rfl

theorem fold_absent {levels : Nat} {stack : List U} {params' : Descs β}
    (h : stack.foldlM (walk env levels) .absent = .ok params') : params' = .absent :=
  foldlM_fixed (walk_absent levels) h

theorem fold_object {levels : Nat} {stack : List U} {entries : Entries β} {params' : Descs β}
    (h : stack.foldlM (walk env (levels + 1)) (.object entries) = .ok params') :
    ∃ entries', params' = .object entries' ∧
      stack.foldlM (walkEntries env (walk env levels)) entries = .ok entries' := by
  induction stack generalizing entries with
  | nil => exact ⟨entries, (Except.ok.inj h).symm, rfl⟩
  | cons o stack ih =>
    obtain ⟨params₁, h₁, h⟩ := foldlM_cons_ok h
    rw [walk] at h₁
    obtain ⟨entries₁, hentries, h₁⟩ := bind_eq_ok_iff.mp h₁
    obtain rfl := Except.ok.inj h₁
    obtain ⟨entries', rfl, h'⟩ := ih h
    exact ⟨entries', rfl, bind_eq_ok_iff.mpr ⟨entries₁, hentries, h'⟩⟩

/-! ## Walks that resolve everything -/

theorem Expands.denoted {u v : U} {data d : Desc β} (hv : Denotes env u v)
    (hdata : env.validate "param" v = .ok (some data)) (h : Expands env v data d) :
    ∃ data', env.validate "param" u = .ok (some data') ∧ Expands env u data' d := by
  induction hv with
  | plain => exact ⟨data, hdata, h⟩
  | root hdata' hroot hurl _ ih =>
    obtain ⟨data', hd', h'⟩ := ih hdata h
    exact ⟨_, hdata', Expands.imported hroot hurl hd' h'⟩

/-- A set of opened files for each of which the walks reach a file, with all that it imports.
Where `right` holds, it is the file that the import stands for. -/
def Settled (env : Env β U) (right : Prop) (opened : List U → U → Prop) : Prop :=
  ∀ ⦃stack u⦄, opened stack u → ∃ v stack', Reaches env stack u v stack' ∧
    (right → Denotes env u v) ∧ ∀ u', Imports env "param" v u' → opened (v :: stack') u'

/-- All walks of a file leave no import, and give what the file should become. -/
def Completes (env : Env β U) (right : Prop) (opened : List U → U → Prop)
    (walk : Descs β → U → Except JsError (Descs β)) : Prop :=
  ∀ ⦃f stack params params'⦄, (f :: stack).foldlM walk params = .ok params' →
    (∀ ref u, Mentions params ref → env.newUrl ref f = .ok u → opened (f :: stack) u) →
    params'.ImportFree ∧ (right → ExpandsAll env f params params')

variable {right : Prop} {opened : List U → U → Prop}

theorem param_completes (hopened : Settled env right opened)
    (hw : Completes env right opened walk') {f : U} {stack : List U} {name : String}
    {d d' : Desc β} {rest : Entries β} (h : (f :: stack).foldlM (walkParam env walk') d = .ok d')
    (hrefs : ∀ ref u, MentionsEntry (.cons name d rest) ref → env.newUrl ref f = .ok u →
      opened (f :: stack) u) :
    d'.importUrl = none ∧ d'.params.ImportFree ∧ d'.commands.ImportFree ∧
      (right → Expands env f d d') := by
  cases himport : d.importUrl with
  | none =>
    obtain ⟨hurl, hbody, hparams, hcommands⟩ := fold_plain himport h
    have hp := hw hparams fun ref u href => hrefs ref u (MentionsEntry.params himport href)
    have hc := hw hcommands fun ref u href => hrefs ref u (MentionsEntry.commands himport href)
    refine ⟨hurl, hp.1, hc.1, ?_⟩
    intro hright
    obtain ⟨body, importUrl, params, commands⟩ := d'
    obtain rfl : importUrl = none := hurl
    obtain rfl : body = d.body := hbody
    exact Expands.own himport (hp.2 hright) (hc.2 hright)
  | some ref =>
    obtain ⟨d₁, hd₁, _⟩ := foldlM_cons_ok h
    obtain ⟨u, _, hu, _⟩ := walkParam_import himport hd₁
    obtain ⟨v, stack', hv, hdenotes, himports⟩ :=
      hopened (hrefs ref u (MentionsEntry.here himport) hu)
    obtain ⟨data, hdata, hroot, hurl, hbody, hparams, hcommands⟩ :=
      fold_reaches hv rfl himport hu h
    have hp := hw hparams fun ref' u' href hu' =>
      himports u' ⟨data, ref', hdata, Or.inl href, hu'⟩
    have hc := hw hcommands fun ref' u' href hu' =>
      himports u' ⟨data, ref', hdata, Or.inr href, hu'⟩
    refine ⟨hurl, hp.1, hc.1, ?_⟩
    intro hright
    obtain ⟨body, importUrl, params, commands⟩ := d'
    obtain rfl : importUrl = none := hurl
    obtain rfl : body = data.body := hbody
    have hown := Expands.own hroot (hp.2 hright) (hc.2 hright)
    obtain ⟨data', hdata', hexpands⟩ := Expands.denoted (hdenotes hright) hdata hown
    exact Expands.imported himport hu hdata' hexpands

theorem entries_complete (hopened : Settled env right opened)
    (hw : Completes env right opened walk') {f : U} {stack : List U} :
    ∀ {entries entries' : Entries β},
      (f :: stack).foldlM (walkEntries env walk') entries = .ok entries' →
      (∀ ref u, MentionsEntry entries ref → env.newUrl ref f = .ok u → opened (f :: stack) u) →
      entries'.ImportFree ∧ (right → ExpandsEntries env f entries entries')
  | .nil, _, h, _ => by
    obtain rfl := fold_entries_nil h
    exact ⟨trivial, fun _ => ExpandsEntries.nil⟩
  | .cons name d rest, _, h, hrefs => by
    obtain ⟨d', rest', rfl, hd, hrest⟩ := fold_entries_cons h
    obtain ⟨hurl, hparams, hcommands, hexpands⟩ := param_completes hopened hw hd hrefs
    have htail := entries_complete hopened hw hrest fun ref u href =>
      hrefs ref u (MentionsEntry.rest href)
    obtain ⟨body, importUrl, params, commands⟩ := d'
    refine ⟨⟨hurl, hparams, hcommands, htail.1⟩, ?_⟩
    intro hright
    exact ExpandsEntries.cons (hexpands hright) (htail.2 hright)

theorem walk_completes (hopened : Settled env right opened) (levels : Nat) :
    Completes env right opened (walk env levels) := by
  induction levels with
  | zero =>
    intro f stack params params' h _
    cases params with
    | absent =>
      obtain rfl := fold_absent h
      exact ⟨trivial, fun _ => ExpandsAll.absent⟩
    | object entries =>
      obtain ⟨params₁, h₁, _⟩ := foldlM_cons_ok h
      exact nomatch h₁
  | succ levels ih =>
    intro f stack params params' h hrefs
    cases params with
    | absent =>
      obtain rfl := fold_absent h
      exact ⟨trivial, fun _ => ExpandsAll.absent⟩
    | object entries =>
      obtain ⟨entries', rfl, h'⟩ := fold_object h
      have hentries := entries_complete hopened ih h' fun ref u href =>
        hrefs ref u (Mentions.object href)
      exact ⟨hentries.1, fun hright => ExpandsAll.object (hentries.2 hright)⟩

/-! ## Walks that leave no import -/

/-- The file is imported by an entry that has no import after all walks. -/
def Replaced (env : Env β U) (stack : List U) (u : U) : Prop :=
  ∃ levels o around d d' ref, stack = o :: around ∧ d.importUrl = some ref ∧
    env.newUrl ref o = .ok u ∧ stack.foldlM (walkParam env (walk env levels)) d = .ok d' ∧
    d'.importUrl = none ∧ d'.params.ImportFree ∧ d'.commands.ImportFree

mutual

theorem replaced_of_mentions {levels : Nat} {o u : U} {around : List U}
    {params params' : Descs β} {ref : String} (href : Mentions params ref)
    (h : (o :: around).foldlM (walk env levels) params = .ok params') (hfree : params'.ImportFree)
    (hu : env.newUrl ref o = .ok u) : Replaced env (o :: around) u :=
  match levels, href with
  | 0, .object _ => by
    obtain ⟨params₁, h₁, _⟩ := foldlM_cons_ok h
    exact nomatch h₁
  | levels + 1, .object hentry => by
    obtain ⟨entries', rfl, h'⟩ := fold_object h
    exact replaced_of_mentionsEntry hentry h' hfree hu

theorem replaced_of_mentionsEntry {levels : Nat} {o u : U} {around : List U}
    {entries entries' : Entries β} {ref : String} (href : MentionsEntry entries ref)
    (h : (o :: around).foldlM (walkEntries env (walk env levels)) entries = .ok entries')
    (hfree : entries'.ImportFree) (hu : env.newUrl ref o = .ok u) :
    Replaced env (o :: around) u := by
  cases href with
  | here hd =>
    obtain ⟨⟨body, importUrl, params, commands⟩, rest', rfl, hparam, _⟩ := fold_entries_cons h
    obtain ⟨hurl, hparams, hcommands, _⟩ := hfree
    exact ⟨levels, o, around, _, _, ref, rfl, hd, hu, hparam, hurl, hparams, hcommands⟩
  | params hd href =>
    obtain ⟨⟨body, importUrl, params, commands⟩, rest', rfl, hparam, _⟩ := fold_entries_cons h
    obtain ⟨_, _, hparams, _⟩ := fold_plain hd hparam
    exact replaced_of_mentions href hparams hfree.2.1 hu
  | commands hd href =>
    obtain ⟨⟨body, importUrl, params, commands⟩, rest', rfl, hparam, _⟩ := fold_entries_cons h
    obtain ⟨_, _, _, hcommands⟩ := fold_plain hd hparam
    exact replaced_of_mentions href hcommands hfree.2.2.1 hu
  | rest href =>
    obtain ⟨⟨body, importUrl, params, commands⟩, rest', rfl, _, hrest⟩ := fold_entries_cons h
    exact replaced_of_mentionsEntry href hrest hfree.2.2.2 hu

end

theorem Replaced.reaches {stack : List U} {u : U} (h : Replaced env stack u) :
    ∃ v stack', Reaches env stack u v stack' := by
  obtain ⟨levels, o, around, d, d', ref, rfl, hd, hu, hwalks, hd', _⟩ := h
  exact exists_reaches hd hwalks hd' hu

theorem Replaced.imports {stack stack' : List U} {u v u' : U} (h : Replaced env stack u)
    (hv : Reaches env stack u v stack') (hu' : Imports env "param" v u') :
    Replaced env (v :: stack') u' := by
  obtain ⟨levels, o, around, d, d', ref, rfl, hd, hu, hwalks, _, hparams', hcommands'⟩ := h
  obtain ⟨data, hdata, _, _, _, hparams, hcommands⟩ := fold_reaches hv rfl hd hu hwalks
  obtain ⟨data', ref', hdata', href, hurl⟩ := hu'
  obtain rfl := Option.some.inj (Except.ok.inj (hdata.symm.trans hdata'))
  rcases href with href | href
  · exact replaced_of_mentions href hparams hparams' hurl
  · exact replaced_of_mentions href hcommands hcommands' hurl

/-! ## Loading -/

theorem load_ok {url : String} {desc : Desc β} (h : load env url = .ok desc) :
    ∃ deviceUrl data, env.fileUrl url = .ok deviceUrl ∧
      env.validate "device" deviceUrl = .ok (some data) ∧
      desc.importUrl = data.importUrl ∧ desc.body = data.body ∧
      [deviceUrl].foldlM (walk env MAX_RESOLVE_DEPTH) data.params = .ok desc.params ∧
      [deviceUrl].foldlM (walk env MAX_RESOLVE_DEPTH) data.commands = .ok desc.commands := by
  rw [load] at h
  split at h
  · exact nomatch h
  · rename_i hname
    rw [not_not.mp hname] at h
    obtain ⟨deviceUrl, hurl, h⟩ := bind_eq_ok_iff.mp h
    obtain ⟨data, hdata, himport, hbody, hparams, hcommands⟩ := loadWith_ok h
    refine ⟨deviceUrl, data, hurl, hdata, himport, hbody, ?_, ?_⟩
    · exact bind_eq_ok_iff.mpr ⟨desc.params, hparams, rfl⟩
    · exact bind_eq_ok_iff.mpr ⟨desc.commands, hcommands, rfl⟩

/-- Loading leaves no import if and only if the walks reach a file for every import. It gives
what the description should be if that is the file that the import stands for. -/
theorem load_importFree_iff {url : String} {desc : Desc β} (h : load env url = .ok desc) :
    ∃ deviceUrl, env.fileUrl url = .ok deviceUrl ∧
      (desc.params.ImportFree ∧ desc.commands.ImportFree ↔
        ∀ stack u, Opens env deviceUrl stack u → ∃ v stack', Reaches env stack u v stack') ∧
      ((∀ stack u, Opens env deviceUrl stack u →
          ∃ v stack', Reaches env stack u v stack' ∧ Denotes env u v) →
        Resolved env url desc) := by
  obtain ⟨deviceUrl, data, hurl, hdata, himport, hbody, hparams, hcommands⟩ := load_ok h
  have hload : ∀ {right : Prop}, Settled env right (Opens env deviceUrl) →
      (desc.params.ImportFree ∧ desc.commands.ImportFree) ∧
        (right → ExpandsAll env deviceUrl data.params desc.params ∧
          ExpandsAll env deviceUrl data.commands desc.commands) := by
    intro right hopened
    have hp := walk_completes hopened MAX_RESOLVE_DEPTH hparams fun ref u href hu =>
      Opens.device ⟨data, ref, hdata, Or.inl href, hu⟩
    have hc := walk_completes hopened MAX_RESOLVE_DEPTH hcommands fun ref u href hu =>
      Opens.device ⟨data, ref, hdata, Or.inr href, hu⟩
    exact ⟨⟨hp.1, hc.1⟩, fun hright => ⟨hp.2 hright, hc.2 hright⟩⟩
  refine ⟨deviceUrl, hurl, ⟨?_, ?_⟩, ?_⟩
  · intro hfree stack u hu
    apply Replaced.reaches
    induction hu with
    | device hu =>
      obtain ⟨data', ref, hdata', href, hu⟩ := hu
      obtain rfl := Option.some.inj (Except.ok.inj (hdata.symm.trans hdata'))
      rcases href with href | href
      · exact replaced_of_mentions href hparams hfree.1 hu
      · exact replaced_of_mentions href hcommands hfree.2 hu
    | param _ hv hu' ih => exact ih.imports hv hu'
  · intro hreaches
    have hopened : Settled env False (Opens env deviceUrl) := by
      intro stack u hu
      obtain ⟨v, stack', hv⟩ := hreaches stack u hu
      exact ⟨v, stack', hv, False.elim, fun u' hu' => Opens.param hu hv hu'⟩
    exact (hload hopened).1
  · intro hreaches
    have hopened : Settled env True (Opens env deviceUrl) := by
      intro stack u hu
      obtain ⟨v, stack', hv, hdenotes⟩ := hreaches stack u hu
      exact ⟨v, stack', hv, fun _ => hdenotes, fun u' hu' => Opens.param hu hv hu'⟩
    obtain ⟨hfree, hexpands⟩ := hload hopened
    obtain ⟨hp, hc⟩ := hexpands trivial
    exact ⟨deviceUrl, data, hurl, hdata, hbody, himport, hp, hc, hfree.1, hfree.2⟩

def oneParam (name : String) (param : Desc Unit) : Desc Unit :=
  .mk () none (.object (.cons name param .nil)) .absent

def importOf (ref : String) : Desc Unit := .mk () (some ref) .absent .absent

def emptyDesc : Desc Unit := .mk () none .absent .absent

/-- A device file that imports the file `param.a.json`, and an empty file `param.b.json`. -/
def threeFiles (a : Desc Unit) : Env Unit String where
  validate _ url :=
    if url = "device.test.json" then .ok (some (oneParam "a" (importOf "param.a.json")))
    else if url = "param.a.json" then .ok (some a)
    else if url = "param.b.json" then .ok (some emptyDesc)
    else .ok none
  fileUrl := .ok
  newUrl ref _ := .ok ref
  href := id
  pathname := id

theorem mentions_oneParam {name ref ref' : String}
    (h : Mentions (oneParam name (importOf ref)).params ref' ∨
      Mentions (oneParam name (importOf ref)).commands ref') : ref' = ref := by
  rcases h with h | h
  · obtain ⟨h⟩ := h
    cases h with
    | here h => exact (Option.some.inj h).symm
    | params h => exact nomatch h
    | commands h => exact nomatch h
    | rest h => exact nomatch h
  · exact nomatch h

theorem threeFiles_plain {schemaName : String} {url u : String}
    (h : Imports (threeFiles (oneParam "b" (importOf "param.b.json"))) schemaName url u) :
    u = "param.a.json" ∨ u = "param.b.json" := by
  obtain ⟨data, ref, hdata, href, hu⟩ := h
  obtain rfl : ref = u := Except.ok.inj hu
  simp only [threeFiles] at hdata
  split at hdata
  · obtain rfl := Option.some.inj (Except.ok.inj hdata)
    exact Or.inl (mentions_oneParam href)
  · split at hdata
    · obtain rfl := Option.some.inj (Except.ok.inj hdata)
      exact Or.inr (mentions_oneParam href)
    · split at hdata
      · obtain rfl := Option.some.inj (Except.ok.inj hdata)
        rcases href with href | href <;> exact nomatch href
      · exact nomatch Except.ok.inj hdata

theorem load_nested : load (threeFiles (oneParam "b" (importOf "param.b.json"))) "device.test.json" =
    .ok (oneParam "a" (oneParam "b" emptyDesc)) := by
  rfl

theorem load_importFree_iff_nested :
    Resolved (threeFiles (oneParam "b" (importOf "param.b.json"))) "device.test.json"
      (oneParam "a" (oneParam "b" emptyDesc)) := by
  obtain ⟨deviceUrl, _, _, hresolved⟩ := load_importFree_iff load_nested
  apply hresolved
  intro stack u hu
  have hnames : u = "param.a.json" ∨ u = "param.b.json" := by
    cases hu with
    | device h => exact threeFiles_plain h
    | param _ _ h => exact threeFiles_plain h
  refine ⟨u, stack, ?_⟩
  rcases hnames with rfl | rfl
  · exact ⟨Reaches.plain rfl rfl, Denotes.plain rfl rfl⟩
  · exact ⟨Reaches.plain rfl rfl, Denotes.plain rfl rfl⟩

/-- An import at the root of an imported file is left in the description. -/
theorem root_import_left :
    ¬ ∀ (env : Env Unit String) (url : String) (desc : Desc Unit), load env url = .ok desc →
      Resolved env url desc := by
  intro hclaim
  have hload : load (threeFiles (importOf "param.b.json")) "device.test.json" =
      .ok (oneParam "a" (importOf "param.b.json")) := rfl
  obtain ⟨_, _, _, _, _, _, _, _, hfree, _⟩ := hclaim _ _ _ hload
  exact nomatch hfree.1

end Catena.Codegen
