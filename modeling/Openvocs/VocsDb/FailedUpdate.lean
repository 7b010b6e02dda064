import Openvocs.VocsDb.Content

namespace assoc

variable {κ α σ : Type}

end assoc

namespace openvocs.vocs_db

/-- `data.domains` and the five indexes are the same. -/
structure SameContent (db db' : Db) : Prop where
  domains : db'.domains = db.domains
  index : ∀ entity id, db'.index_get entity id = db.index_get entity id

theorem SameContent.refl (db : Db) : SameContent db db := ⟨rfl, fun _ _ => rfl⟩

/-- What a refused member leaves of an entity: its users, roles and loops get an
    empty object when there was nothing. -/
structure Refused (path : Path) (key : String) (db db' : Db) : Prop where
  domains : db'.domains = db.domains ∨
    ((∃ kind : Entity, kind.is_item = true ∧ key = kind.container) ∧ ¬ db.has (path ++ [key]) ∧
      db'.domains = (db.object_set path key (.object [])).2.domains)
  index : ∀ entity id, db'.index_get entity id = db.index_get entity id

theorem Refused.refl (path : Path) (key : String) (db : Db) : Refused path key db db := ⟨.inl rfl, fun _ _ => rfl⟩

section

variable {db db' : Db} {path : Path}

theorem Refused.created (hplaced : Placed db) (kind : Entity) (hkind : kind.is_item = true) (path : Path) :
    Refused path kind.container db (get_create_content path kind.container db).2 := by
  obtain ⟨-, heq⟩ | ⟨hnone, heq⟩ := get_create_content_cases db path kind.container
  · rw [heq]
    exact .refl path _ db
  rw [heq]
  refine ⟨.inr ⟨⟨kind, hkind, rfl⟩, hnone, rfl⟩, fun entity id => ?_⟩
  cases hobject : db.is_object_at path with
  | false => rw [Db.object_set_of_not_object hobject]
  | true =>
    rw [(Db.writes_object_set hobject kind.container (.object [])).index_get_eq]
    -- no entry is below a member that is not there
    cases hget : db.index_get entity id with
    | none => rfl
    | some ptr =>
      cases hplaced entity id ptr hget with
      | node hsits =>
        rw [Option.map_some, Ptr.release_of_not_below (fun hbelow => hnone (Db.has_of_below hbelow hsits.2))]
      | loose value huser => rfl
      | dangling => rfl

end

section

variable {db db' : Db} {path : Path}

end

section

variable {db : Db} {own : Option Json} {value : Json} {message : String} {err err' : Option Json}

end

section

variable {u u' : Update} {id key : String} {val : Json}

end

end openvocs.vocs_db
