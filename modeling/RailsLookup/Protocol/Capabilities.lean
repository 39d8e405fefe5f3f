import RailsLookup.Protocol.Call

/-! # Capabilities of clients

What a client says about itself when a session starts. A session makes no use of it, but does not
start if a part of it has the wrong shape.
-/

namespace RailsLookup.Protocol.Capabilities

open Shape

/-- A record with these flags, none of which is needed, and then other fields. -/
def flagged (names : List String) (fields : List (String × Bool × Shape)) : Shape :=
  record false (names.map (may · boolean) ++ fields)

def flags (names : List String) : Shape := flagged names []

def dynamic : Shape := flags ["dynamicRegistration"]

def refresh : Shape := flags ["refreshSupport"]

def goto : Shape := flags ["dynamicRegistration", "linkSupport"]

def properties : Shape := record false [needs "properties" (list text)]

def markup : Shape := list (word ["plaintext", "markdown"])

def kinds : Shape := record false [may "valueSet" (list integer)]

/-- Tags were once a mere flag. -/
def tags : Shape := either boolean (record false [needs "valueSet" (list integer)])

def workspace : Shape :=
  record false [
    may "applyEdit" boolean,
    may "workspaceEdit" (record false [
      may "documentChanges" boolean,
      may "resourceOperations" (list (word ["create", "rename", "delete"])),
      may "failureHandling" (word ["abort", "transactional", "textOnlyTransactional", "undo"]),
      may "normalizesLineEndings" boolean,
      may "changeAnnotationSupport" (flags ["groupsOnLabel"])]),
    may "didChangeConfiguration" dynamic,
    may "didChangeWatchedFiles" (flags ["dynamicRegistration", "relativePatternSupport"]),
    may "symbol" (flagged ["dynamicRegistration"]
      [may "symbolKind" kinds, may "tagSupport" tags, may "resolveSupport" properties]),
    may "executeCommand" dynamic,
    may "workspaceFolders" boolean,
    may "configuration" boolean,
    may "semanticTokens" refresh,
    may "codeLens" refresh,
    may "fileOperations" (flags ["dynamicRegistration", "didCreate", "willCreate", "didRename",
      "willRename", "didDelete", "willDelete"]),
    may "inlineValue" refresh,
    may "inlayHint" refresh,
    may "diagnostic" refresh]

def completionItem : Shape :=
  flagged ["snippetSupport", "commitCharactersSupport"] [
    may "documentationFormat" markup,
    may "deprecatedSupport" boolean,
    may "preselectSupport" boolean,
    may "tagSupport" tags,
    may "insertReplaceSupport" boolean,
    may "resolveSupport" properties,
    may "insertTextModeSupport" (record false [needs "valueSet" (list integer)]),
    may "labelDetailsSupport" boolean]

def signature : Shape :=
  record false [
    may "documentationFormat" markup,
    may "parameterInformation" (flags ["labelOffsetSupport"]),
    may "activeParameterSupport" boolean]

def codeAction : Shape :=
  flagged ["dynamicRegistration"] [
    may "codeActionLiteralSupport" (record false
      [needs "codeActionKind" (record false [needs "valueSet" (list text)])]),
    may "isPreferredSupport" boolean,
    may "disabledSupport" boolean,
    may "dataSupport" boolean,
    may "resolveSupport" properties,
    may "honorsChangeAnnotations" boolean]

def semanticTokens : Shape :=
  flagged ["dynamicRegistration"] [
    needs "requests" (record false
      [may "range" boolean, may "full" (either boolean (flags ["delta"]))]),
    needs "tokenTypes" (list text),
    needs "tokenModifiers" (list text),
    needs "formats" (list (word ["relative"])),
    may "overlappingTokenSupport" boolean,
    may "multilineTokenSupport" boolean,
    may "serverCancelSupport" boolean,
    may "augmentsSyntaxTokens" boolean]

def textDocument : Shape :=
  record false [
    may "synchronization"
      (flags ["dynamicRegistration", "willSave", "willSaveWaitUntil", "didSave"]),
    may "completion" (flagged ["dynamicRegistration"]
      [may "completionItem" completionItem, may "completionItemKind" kinds,
       may "contextSupport" boolean, may "insertTextMode" integer,
       may "completionList" (record false [may "itemDefaults" (list text)])]),
    may "hover" (flagged ["dynamicRegistration"] [may "contentFormat" markup]),
    may "signatureHelp" (flagged ["dynamicRegistration"]
      [may "signatureInformation" signature, may "contextSupport" boolean]),
    may "references" dynamic,
    may "documentHighlight" dynamic,
    may "documentSymbol" (flagged ["dynamicRegistration"]
      [may "symbolKind" kinds, may "hierarchicalDocumentSymbolSupport" boolean,
       may "tagSupport" tags]),
    may "formatting" dynamic,
    may "rangeFormatting" dynamic,
    may "onTypeFormatting" dynamic,
    may "declaration" goto,
    may "definition" goto,
    may "typeDefinition" goto,
    may "implementation" goto,
    may "codeAction" codeAction,
    may "codeLens" dynamic,
    may "documentLink" (flags ["dynamicRegistration", "tooltipSupport"]),
    may "colorProvider" dynamic,
    may "rename" (flagged ["dynamicRegistration", "prepareSupport"]
      [may "prepareSupportDefaultBehavior" integer, may "honorsChangeAnnotations" boolean]),
    may "publishDiagnostics" (flagged ["relatedInformation"]
      [may "tagSupport" tags, may "versionSupport" boolean, may "codeDescriptionSupport" boolean,
       may "dataSupport" boolean]),
    may "foldingRange" (flagged ["dynamicRegistration"]
      [may "rangeLimit" natural, may "lineFoldingOnly" boolean,
       may "foldingRangeKind"
         (record false [may "valueSet" (list (word ["comment", "imports", "region"]))]),
       may "foldingRange" (flags ["collapsedText"])]),
    may "selectionRange" dynamic,
    may "linkedEditingRange" dynamic,
    may "callHierarchy" dynamic,
    may "semanticTokens" semanticTokens,
    may "moniker" dynamic,
    may "typeHierarchy" dynamic,
    may "inlineValue" dynamic,
    may "inlayHint" (flagged ["dynamicRegistration"] [may "resolveSupport" properties]),
    may "diagnostic" (flags ["dynamicRegistration", "relatedDocumentSupport"])]

def notebookDocument : Shape :=
  record false [needs "synchronization" (flags ["dynamicRegistration", "executionSummarySupport"])]

def window : Shape :=
  flagged ["workDoneProgress"] [
    may "showMessage"
      (record false [may "messageActionItem" (flags ["additionalPropertiesSupport"])]),
    may "showDocument" (record false [needs "support" boolean])]

def general : Shape :=
  record false [
    may "regularExpressions" (record false [needs "engine" text, may "version" text]),
    may "markdown" (record false
      [needs "parser" text, may "version" text, may "allowedTags" (list text)]),
    may "staleRequestSupport" (record false
      [needs "cancel" boolean, needs "retryOnContentModified" (list text)]),
    may "positionEncodings" (list text)]

def all : Shape :=
  record true [may "workspace" workspace, may "textDocument" textDocument,
    may "notebookDocument" notebookDocument, may "window" window, may "general" general,
    may "offsetEncoding" (list text), may "experimental" anything]

end RailsLookup.Protocol.Capabilities
