import VocabTypes.Json.Format
import VocabTypes.Namespace
import VocabTypes.Registry.Load

/-!
# Input formats

## Classes and options as JSON

The formats in which a source delivers classes and a user states options.  What
may be left out has a fallback.
-/

namespace VocabTypes

open Json

/-- The format of fields that have to be given. -/
def Json.Fields.required (key : String) (item : Format α) (rest : Fields δ σ) :
    Fields (Option α × δ) (α × σ) :=
  .cons key item none rest

/-- The format of fields that may be left out. -/
def Json.Fields.withFallback (key : String) (item : Format α) (fallback : α)
    (rest : Fields δ σ) : Fields (Option α × δ) (α × σ) :=
  .cons key item (some fallback) rest

namespace Identifier

def format : Format Identifier :=
  .via (.record (.required "name" .text (.required "href" .text .nil)))
    (fun (name, href, _) => ⟨name, href⟩)
    (fun id => (id.name, id.href, ()))
    (fun _ => rfl)

end Identifier

namespace Object

/-- The key says whether the object is a term or a text. -/
def format : Format Object :=
  .via (.either "iri" Identifier.format "literal" .text)
    (fun
      | .inl target => .iri target
      | .inr text => .literal text)
    (fun
      | .iri target => .inl target
      | .literal text => .inr text)
    (fun
      | .iri _ => rfl
      | .literal _ => rfl)

end Object

namespace Fact

def format : Format Fact :=
  .via (.record (.required "predicate" .text (.required "object" Object.format .nil)))
    (fun (predicate, object, _) => ⟨predicate, object⟩)
    (fun fact => (fact.predicate, fact.object, ()))
    (fun _ => rfl)

end Fact

namespace Property

/-- Only the identifier has to be given. -/
def format : Format Property :=
  .via
    (.record
      (.required "id" Identifier.format
        (.withFallback "ranges" (.list Identifier.format) []
          (.withFallback "comment" (.nullable .text) none
            (.withFallback "deprecated" .bool false .nil)))))
    (fun (id, ranges, comment, deprecated, _) => ⟨id, ranges, comment, deprecated⟩)
    (fun p => (p.id, p.ranges, p.comment, p.deprecated, ()))
    (fun _ => rfl)

end Property

namespace EnumValue

/-- Only the identifier has to be given. -/
def format : Format EnumValue :=
  .via
    (.record
      (.required "id" Identifier.format
        (.withFallback "comment" (.nullable .text) none .nil)))
    (fun (id, comment, _) => ⟨id, comment⟩)
    (fun v => (v.id, v.comment, ()))
    (fun _ => rfl)

end EnumValue

namespace SourceClass

/-- Only the subject has to be given. -/
def format : Format SourceClass :=
  .via
    (.record
      (.required "subject" Identifier.format
        (.withFallback "allow_string" .bool false
          (.withFallback "facts" (.list Fact.format) []
            (.withFallback "properties" (.list Property.format) []
              (.withFallback "enum_values" (.list EnumValue.format) [] .nil))))))
    (fun (subject, allowString, facts, properties, enumValues, _) =>
      ⟨subject, allowString, facts, properties, enumValues⟩)
    (fun c => (c.subject, c.allowString, c.facts, c.properties, c.enumValues, ()))
    (fun _ => rfl)

def listFormat : Format (List SourceClass) :=
  .list format

end SourceClass

namespace Namespace

def format : Format Namespace :=
  .via (.record (.required "prefix" .text (.required "url" .text .nil)))
    (fun (label, url, _) => ⟨label, url⟩)
    (fun ns => (ns.label, ns.url, ()))
    (fun _ => rfl)

end Namespace

namespace Context

/-- The list of namespaces has to be given. -/
def format : Format Context :=
  .via (.record (.required "namespaces" (.list Namespace.format) .nil))
    (fun (namespaces, _) => ⟨namespaces⟩)
    (fun c => (c.namespaces, ()))
    (fun _ => rfl)

end Context

namespace Options

/-- Options that are left out are the standard ones. -/
def format : Format Options :=
  .via
    (.record
      (.withFallback "skip_deprecated_properties" .bool standard.skipDeprecatedProperties
        (.withFallback "context" Context.format standard.context
          (.withFallback "id_field" .text standard.idField
            (.withFallback "type_field" .text standard.typeField .nil)))))
    (fun (skipDeprecatedProperties, context, idField, typeField, _) =>
      ⟨skipDeprecatedProperties, context, idField, typeField⟩)
    (fun o => (o.skipDeprecatedProperties, o.context, o.idField, o.typeField, ()))
    (fun _ => rfl)

end Options

end VocabTypes
