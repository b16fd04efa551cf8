/-! Descriptors of classes named by a class id, such as `kotlin/collections/Map.Entry`. -/
namespace JarPruning.Metadata.ClassId

def primitives : List (String × String) :=
  [("Boolean", "Z"), ("Char", "C"), ("Byte", "B"), ("Short", "S"), ("Int", "I"), ("Float", "F"),
   ("Long", "J"), ("Double", "D")]

/-- Class ids below `kotlin/` with the internal names of the classes that stand for them. -/
def classes : List (String × String) :=
  [("Any", "java/lang/Object"), ("Nothing", "java/lang/Void"),
   ("Annotation", "java/lang/annotation/Annotation")] ++
  ["String", "CharSequence", "Throwable", "Cloneable", "Number", "Comparable", "Enum"].map
    (fun c => (c, s!"java/lang/{c}")) ++
  ["Iterator", "Collection", "List", "Set", "Map", "ListIterator"].flatMap
    (fun c => [(s!"collections/{c}", s!"java/util/{c}"),
      (s!"collections/Mutable{c}", s!"java/util/{c}")]) ++
  [("collections/Iterable", "java/lang/Iterable"),
   ("collections/MutableIterable", "java/lang/Iterable"),
   ("collections/Map.Entry", "java/util/Map$Entry"),
   ("collections/MutableMap.MutableEntry", "java/util/Map$Entry")] ++
  (List.range 23).flatMap
    (fun n => [(s!"Function{n}", s!"kotlin/jvm/functions/Function{n}"),
      (s!"reflect/KFunction{n}", "kotlin/reflect/KFunction")]) ++
  ["Char", "Byte", "Short", "Int", "Float", "Long", "Double", "String", "Enum"].map
    (fun c => (s!"{c}.Companion", s!"kotlin/jvm/internal/{c}CompanionObject"))

/-- The descriptors of the class ids that do not stand for a class of their own name. -/
def mapped : List (String × String) :=
  primitives.flatMap (fun (c, d) => [(s!"kotlin/{c}", d), (s!"kotlin/{c}Array", s!"[{d}")]) ++
  [("kotlin/Unit", "V")] ++
  classes.map (fun (c, name) => (s!"kotlin/{c}", s!"L{name};"))

/-- The internal name with `$` before nested classes. -/
def internalName (id : String) : String :=
  String.ofList (id.toList.map fun c => if c = '.' then '$' else c)

def descriptor (id : String) : String := (mapped.lookup id).getD s!"L{internalName id};"

end JarPruning.Metadata.ClassId
