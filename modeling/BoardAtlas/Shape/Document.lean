import BoardAtlas.Shape.Tree

/-!
# Documents of shapes

* `Shape.toJson`: a shape with its type first;
* `Group.toJson`: a group on its own, without a type.
-/

namespace BoardAtlas

/-- The document of a style. -/
def Style.toJson (s : Style) : Json := Json.members Value.toJson s

/-- The members that every shape has; those without a value are left out. -/
def Frame.members (f : Frame Float) : List (String × Json) :=
  Json.member? "id" .str f.id? ++ Json.member? "base_id" .str f.baseId? ++
    [("pos", f.pos.toJson)] ++ Json.member? "label_dir" (fun d => .str d.name) f.labelDir? ++
    Json.member? "label_size" .float f.labelSize?

/-- The members of a group but for its children. -/
def Group.head (frame : Frame Float) (name : String) (count : Nat) (vars : Dict Value) :
    List (String × Json) :=
  frame.members ++ (if name = "" then [] else [("name", .str name)]) ++
    [("repeat", Json.nat count)] ++
    (if vars.isEmpty then [] else [("vars", Json.members Value.toJson vars)])

namespace Shape

mutual

/-- The document of a shape. -/
def toJson : Shape Float → Json
  | rect f size rx ry fill stroke =>
    .obj ([("type", .str "rect")] ++ f.members ++ [("size", size.toJson)] ++
      Json.member? "rx" .float rx ++ Json.member? "ry" .float ry ++
      Json.member? "fill" Style.toJson fill ++ Json.member? "stroke" Style.toJson stroke)
  | circle f r fill stroke =>
    .obj ([("type", .str "circle")] ++ f.members ++ [("r", .float r)] ++
      Json.member? "fill" Style.toJson fill ++ Json.member? "stroke" Style.toJson stroke)
  | text f s size fill =>
    .obj ([("type", .str "text")] ++ f.members ++ [("text", .str s), ("font_size", .float size)] ++
      Json.member? "fill" Style.toJson fill)
  | group f name count vars children =>
    .obj ([("type", .str "group")] ++ Group.head f name count vars ++
      [("children", .arr (toJsonAll children))])

/-- The documents of shapes. -/
def toJsonAll : List (Shape Float) → List Json
  | [] => []
  | s :: rest => toJson s :: toJsonAll rest

end

end Shape

/-- The document of a group on its own. -/
def Group.toJson (g : Group Float) : Json :=
  .obj (Group.head g.frame g.name g.count g.vars ++
    [("children", .arr (Shape.toJsonAll g.children))])

end BoardAtlas
