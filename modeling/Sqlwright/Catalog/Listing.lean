import Sqlwright.Connection
import Sqlwright.Grammar

/-!
What is asked of the catalog. Every dialect keeps its catalog elsewhere; the listings name their
columns alike, so one reader serves them all.
-/

namespace Sqlwright

/-- The schema in which an unqualified table is looked for. -/
def Dialect.defaultSchema (d : Dialect) (config : Config) : String :=
  match d with
  | .generic | .postgres => config.schema.getD "public"
  | .mysql => config.database.getD ""
  | .sqlite => "main"
  | .hana => config.schema.getD "PUBLIC"

/-- The name of a table without its schema. -/
def unqualified (name : String) : String := Text.afterLast '.' name

namespace Statement

/-- A statement without values. -/
def plain (sql : String) : Statement := ⟨[.text sql], []⟩

/-- A statement with the values that stand at its places. -/
def ofPieces (pieces : List Piece) : Statement := ⟨pieces, (placesOf pieces).filterMap id⟩

end Statement

/-- The place of a text. -/
def textPlace (s : String) : Piece := .place (.text s)

/-- The place of a schema on MySQL; without a name it is the current one. -/
def schemaPlace (schema : String) : Piece :=
  if schema = "" then .text "DATABASE()" else textPlace schema

namespace Grammar

/-- The schema and the stored name of a table; `schema.table` names a schema of its own. -/
def splitName (g : Grammar) (schema name : String) : String × String :=
  match Text.cut '.' name.toList with
  | some (own, table) => (.ofList own, g.tablePrefix ++ .ofList table)
  | none => (schema, g.tablePrefix ++ name)

/-- Looks for a table by its stored name. -/
def tableExists (g : Grammar) (schema name : String) : Statement :=
  let (schema, table) := g.splitName schema name
  match g.dialect with
  | .generic | .postgres =>
    .ofPieces
      [.text "SELECT table_name AS name FROM information_schema.tables WHERE table_schema = ",
       textPlace schema, .text " AND table_name = ", textPlace table]
  | .mysql =>
    .ofPieces
      [.text "SELECT TABLE_NAME AS name FROM information_schema.TABLES WHERE TABLE_SCHEMA = ",
       schemaPlace schema, .text " AND TABLE_NAME = ", textPlace table]
  | .sqlite =>
    .ofPieces
      [.text "SELECT name FROM sqlite_master WHERE type = 'table' AND name = ", textPlace table]
  | .hana =>
    .ofPieces
      [.text "SELECT table_name AS \"name\" FROM public.tables WHERE schema_name = ",
       textPlace schema, .text " AND table_name = ", textPlace table]

/-- Lists the stored names of all tables. -/
def listTables (g : Grammar) (schema : String) : Statement :=
  match g.dialect with
  | .generic | .postgres =>
    .ofPieces
      [.text "SELECT table_name AS name FROM information_schema.tables WHERE table_schema = ",
       textPlace schema, .text " AND table_type = 'BASE TABLE' ORDER BY table_name"]
  | .mysql =>
    .ofPieces
      [.text "SELECT TABLE_NAME AS name FROM information_schema.TABLES WHERE TABLE_SCHEMA = ",
       schemaPlace schema, .text " AND TABLE_TYPE = 'BASE TABLE' ORDER BY TABLE_NAME"]
  | .sqlite =>
    .plain ("SELECT name FROM sqlite_master " ++
      "WHERE type = 'table' AND name NOT LIKE 'sqlite_%' ORDER BY name")
  | .hana =>
    .ofPieces
      [.text "SELECT table_name AS \"name\" FROM public.tables WHERE schema_name = ",
       textPlace schema, .text " ORDER BY table_name"]

/-- Asks for the version of the server. -/
def versionQuery (g : Grammar) : Statement :=
  match g.dialect with
  | .generic | .mysql => .plain "SELECT VERSION() AS version"
  | .postgres => .plain "SHOW server_version"
  | .sqlite => .plain "SELECT sqlite_version() AS version"
  | .hana => .plain "select VERSION from \"SYS\".\"M_DATABASE\""

/-- Lists the columns of a table in order. -/
def listColumns (g : Grammar) (schema name : String) : Statement :=
  let (schema, table) := g.splitName schema name
  match g.dialect with
  | .generic =>
    .ofPieces
      [.text ("SELECT column_name AS column_name, ordinal_position AS ordinal, " ++
       "column_default AS column_default, is_nullable AS is_nullable, " ++
       "UPPER(data_type) AS data_type, UPPER(data_type) AS type_name, " ++
       "character_maximum_length AS max_length, numeric_precision AS numeric_precision, " ++
       "numeric_scale AS numeric_scale, datetime_precision AS datetime_precision, " ++
       "character_set_name AS charset_name, collation_name AS collation_name " ++
       "FROM information_schema.columns WHERE table_schema = "),
       textPlace schema, .text " AND table_name = ", textPlace table,
       .text " ORDER BY ordinal_position"]
  | .mysql =>
    .ofPieces
      [.text ("SELECT COLUMN_NAME AS column_name, ORDINAL_POSITION AS ordinal, " ++
       "COLUMN_DEFAULT AS column_default, IS_NULLABLE AS is_nullable, " ++
       "UPPER(DATA_TYPE) AS data_type, COLUMN_TYPE AS type_name, " ++
       "CHARACTER_MAXIMUM_LENGTH AS max_length, NUMERIC_PRECISION AS numeric_precision, " ++
       "NUMERIC_SCALE AS numeric_scale, DATETIME_PRECISION AS datetime_precision, " ++
       "CHARACTER_SET_NAME AS charset_name, COLLATION_NAME AS collation_name, " ++
       "COLUMN_COMMENT AS column_comment, EXTRA AS extra, " ++
       "CASE WHEN COLUMN_KEY = 'PRI' THEN 1 ELSE 0 END AS is_primary " ++
       "FROM information_schema.COLUMNS WHERE TABLE_SCHEMA = "),
       schemaPlace schema, .text " AND TABLE_NAME = ", textPlace table,
       .text " ORDER BY ORDINAL_POSITION"]
  | .postgres =>
    .ofPieces
      [.text ("SELECT c.column_name AS column_name, c.ordinal_position AS ordinal, " ++
       "c.column_default AS column_default, c.is_nullable AS is_nullable, " ++
       "UPPER(c.data_type) AS data_type, " ++
       "UPPER(CASE WHEN c.udt_name IN ('vector', 'vecf16', 'halfvec') " ++
       "THEN format_type(a.atttypid, a.atttypmod) ELSE c.udt_name END) AS type_name, " ++
       "c.character_maximum_length AS max_length, c.numeric_precision AS numeric_precision, " ++
       "c.numeric_scale AS numeric_scale, c.datetime_precision AS datetime_precision, " ++
       "c.collation_name AS collation_name, " ++
       "col_description((quote_ident(c.table_schema) || '.' || quote_ident(c.table_name))" ++
       "::regclass::oid, c.ordinal_position) AS column_comment, " ++
       "CASE WHEN c.column_default LIKE 'nextval(%' THEN 'auto_increment' ELSE '' END AS extra " ++
       "FROM information_schema.columns c JOIN pg_attribute a ON a.attrelid = " ++
       "(quote_ident(c.table_schema) || '.' || quote_ident(c.table_name))::regclass " ++
       "AND a.attname = c.column_name WHERE c.table_schema = "),
       textPlace schema, .text " AND c.table_name = ", textPlace table,
       .text " ORDER BY c.ordinal_position"]
  | .sqlite =>
    .ofPieces
      [.text ("SELECT name AS column_name, cid + 1 AS ordinal, dflt_value AS column_default, " ++
       "CASE WHEN \"notnull\" = 0 THEN 'YES' ELSE 'NO' END AS is_nullable, " ++
       "UPPER(type) AS data_type, UPPER(type) AS type_name, pk AS is_primary, " ++
       "CASE WHEN pk > 0 AND (SELECT sql FROM sqlite_master WHERE type = 'table' AND name = "),
       textPlace table,
       .text (") LIKE '%AUTOINCREMENT%' THEN 'auto_increment' ELSE '' END AS extra " ++
       "FROM pragma_table_info("),
       textPlace table, .text ") ORDER BY cid"]
  | .hana =>
    .ofPieces
      [.text ("SELECT COLUMN_NAME AS \"column_name\", POSITION AS \"ordinal\", " ++
       "DEFAULT_VALUE AS \"column_default\", IS_NULLABLE AS \"is_nullable\", " ++
       "UPPER(DATA_TYPE_NAME) AS \"data_type\", UPPER(DATA_TYPE_NAME) AS \"type_name\", " ++
       "LENGTH AS \"max_length\", LENGTH AS \"numeric_precision\", SCALE AS \"numeric_scale\", " ++
       "COMMENTS AS \"column_comment\", GENERATION_TYPE AS \"extra\" " ++
       "FROM TABLE_COLUMNS WHERE SCHEMA_NAME = "),
       textPlace schema, .text " AND TABLE_NAME = ", textPlace table, .text " ORDER BY POSITION"]

/-- Lists the columns of every index of a table, in key order. -/
def listIndexes (g : Grammar) (schema name : String) : Statement :=
  let (schema, table) := g.splitName schema name
  match g.dialect with
  | .generic =>
    .ofPieces
      [.text ("SELECT tc.constraint_name AS index_name, kcu.column_name AS column_name, " ++
       "1 AS is_unique, " ++
       "CASE WHEN tc.constraint_type = 'PRIMARY KEY' THEN 1 ELSE 0 END AS is_primary, " ++
       "kcu.ordinal_position AS seq_in_index " ++
       "FROM information_schema.table_constraints tc " ++
       "JOIN information_schema.key_column_usage kcu " ++
       "ON kcu.constraint_name = tc.constraint_name AND kcu.table_schema = tc.table_schema " ++
       "AND kcu.table_name = tc.table_name WHERE tc.table_schema = "),
       textPlace schema, .text " AND tc.table_name = ", textPlace table,
       .text (" AND tc.constraint_type IN ('PRIMARY KEY', 'UNIQUE') " ++
       "ORDER BY tc.constraint_name, kcu.ordinal_position")]
  | .mysql =>
    .ofPieces
      [.text ("SELECT INDEX_NAME AS index_name, COLUMN_NAME AS column_name, " ++
       "CASE WHEN NON_UNIQUE = 0 THEN 1 ELSE 0 END AS is_unique, " ++
       "CASE WHEN INDEX_NAME = 'PRIMARY' THEN 1 ELSE 0 END AS is_primary, " ++
       "SEQ_IN_INDEX AS seq_in_index, INDEX_COMMENT AS index_comment " ++
       "FROM information_schema.STATISTICS WHERE TABLE_SCHEMA = "),
       schemaPlace schema, .text " AND TABLE_NAME = ", textPlace table,
       .text " ORDER BY INDEX_NAME, SEQ_IN_INDEX"]
  | .postgres =>
    .ofPieces
      [.text ("SELECT ic.relname AS index_name, a.attname AS column_name, " ++
       "ix.indisunique AS is_unique, ix.indisprimary AS is_primary, k.ord AS seq_in_index " ++
       "FROM pg_index ix JOIN pg_class tc ON tc.oid = ix.indrelid " ++
       "JOIN pg_namespace n ON n.oid = tc.relnamespace " ++
       "JOIN pg_class ic ON ic.oid = ix.indexrelid " ++
       "CROSS JOIN LATERAL unnest(ix.indkey) WITH ORDINALITY AS k(attnum, ord) " ++
       "JOIN pg_attribute a ON a.attrelid = tc.oid AND a.attnum = k.attnum WHERE n.nspname = "),
       textPlace schema, .text " AND tc.relname = ", textPlace table,
       .text " ORDER BY ic.relname, k.ord"]
  | .sqlite =>
    .ofPieces
      [.text ("SELECT il.name AS index_name, ii.name AS column_name, " ++
       "il.\"unique\" AS is_unique, " ++
       "CASE WHEN il.origin = 'pk' THEN 1 ELSE 0 END AS is_primary, " ++
       "ii.seqno AS seq_in_index " ++
       "FROM pragma_index_list("),
       textPlace table,
       .text ") AS il JOIN pragma_index_info(il.name) AS ii ORDER BY il.seq, ii.seqno"]
  | .hana =>
    .ofPieces
      [.text ("SELECT I.INDEX_NAME AS \"index_name\", C.COLUMN_NAME AS \"column_name\", " ++
       "CASE WHEN I.\"CONSTRAINT\" IN ('UNIQUE', 'NOT NULL UNIQUE', 'PRIMARY KEY') " ++
       "THEN 1 ELSE 0 END AS \"is_unique\", " ++
       "CASE WHEN I.\"CONSTRAINT\" = 'PRIMARY KEY' THEN 1 ELSE 0 END AS \"is_primary\", " ++
       "C.POSITION AS \"seq_in_index\" " ++
       "FROM INDEXES I JOIN INDEX_COLUMNS C ON I.INDEX_OID = C.INDEX_OID WHERE C.SCHEMA_NAME = "),
       textPlace schema, .text " AND C.TABLE_NAME = ", textPlace table,
       .text " ORDER BY I.INDEX_NAME, C.POSITION"]

end Grammar

end Sqlwright
