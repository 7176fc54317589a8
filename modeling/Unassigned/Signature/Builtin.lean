import Unassigned.Signature.Basic

/-!
# `Signature.Builtin` — the functions of the PHP runtime

Two tables: the functions that take no argument by reference, and the positions of the by-reference
arguments of the others. A third list names the functions whose by-reference arguments must have a value
before the call, such as the sorting functions.
-/

namespace Unassigned

/-- Functions that take no argument by reference. -/
def builtinsWithoutReferences : List String := [
  "abs", "acos", "acosh", "addcslashes", "addslashes", "array_change_key_case", "array_chunk",
  "array_column", "array_combine", "array_count_values", "array_diff", "array_diff_assoc",
  "array_diff_key", "array_diff_uassoc", "array_diff_ukey", "array_fill", "array_fill_keys",
  "array_filter", "array_flip", "array_intersect", "array_intersect_assoc", "array_intersect_key",
  "array_intersect_uassoc", "array_intersect_ukey", "array_is_list", "array_key_exists",
  "array_key_first", "array_key_last", "array_keys", "array_map", "array_merge",
  "array_merge_recursive", "array_pad", "array_product", "array_rand", "array_reduce",
  "array_replace", "array_replace_recursive", "array_reverse", "array_search", "array_slice",
  "array_sum", "array_udiff", "array_udiff_assoc", "array_udiff_uassoc", "array_uintersect",
  "array_uintersect_assoc", "array_uintersect_uassoc", "array_unique", "array_values", "asin",
  "asinh", "assert", "atan", "atan2", "atanh", "base64_decode", "base64_encode", "base_convert",
  "basename", "bin2hex", "bindec", "boolval", "call_user_func", "call_user_func_array", "ceil",
  "chdir", "checkdate", "chmod", "chop", "chown", "chr", "chunk_split", "class_exists",
  "class_implements", "class_parents", "clearstatcache", "closedir", "compact", "constant", "copy",
  "cos", "cosh", "count", "count_chars", "crc32", "crypt", "ctype_alnum", "ctype_alpha",
  "ctype_digit", "ctype_lower", "ctype_punct", "ctype_space", "ctype_upper", "ctype_xdigit",
  "curl_close", "curl_errno", "curl_error", "curl_exec", "curl_getinfo", "curl_init", "curl_setopt",
  "curl_setopt_array", "current", "date", "date_add", "date_create", "date_create_immutable",
  "date_default_timezone_get", "date_default_timezone_set", "date_diff", "date_format",
  "date_parse", "debug_backtrace", "debug_print_backtrace", "decbin", "dechex", "decoct", "define",
  "defined", "deg2rad", "dirname", "disk_free_space", "error_get_last", "error_log",
  "error_reporting", "escapeshellarg", "escapeshellcmd", "exp", "explode", "expm1",
  "extension_loaded", "extract", "fclose", "feof", "fflush", "fgetc", "fgetcsv", "fgets", "file",
  "file_exists", "file_get_contents", "file_put_contents", "fileatime", "filectime", "filemtime",
  "fileperms", "filesize", "filetype", "filter_input", "filter_var", "floatval", "floor", "flush",
  "fmod", "fnmatch", "fopen", "fpassthru", "fputcsv", "fputs", "fread", "fseek", "fstat", "ftell",
  "ftruncate", "func_get_arg", "func_get_args", "func_num_args", "function_exists", "fwrite",
  "gc_collect_cycles", "get_called_class", "get_class", "get_class_methods", "get_object_vars",
  "get_parent_class", "getcwd", "getdate", "getenv", "gethostbyname", "gethostname", "getmypid",
  "gettype", "glob", "gmdate", "gmmktime", "gzcompress", "gzdecode", "gzencode", "gzinflate",
  "gzuncompress", "hash", "hash_algos", "hash_equals", "hash_file", "hash_hmac", "header",
  "header_remove", "headers_list", "hex2bin", "hexdec", "html_entity_decode", "htmlentities",
  "htmlspecialchars", "htmlspecialchars_decode", "http_build_query", "hypot", "iconv",
  "iconv_strlen", "iconv_substr", "idate", "ignore_user_abort", "implode", "in_array", "ini_get",
  "ini_set", "intdiv", "interface_exists", "intval", "ip2long", "is_a", "is_array", "is_bool",
  "is_countable", "is_dir", "is_executable", "is_file", "is_finite", "is_float", "is_infinite",
  "is_int", "is_integer", "is_iterable", "is_link", "is_long", "is_nan", "is_null", "is_numeric",
  "is_object", "is_readable", "is_resource", "is_scalar", "is_string", "is_subclass_of",
  "is_uploaded_file", "is_writable", "is_writeable", "iterator_apply", "iterator_count",
  "iterator_to_array", "join", "json_decode", "json_encode", "json_last_error",
  "json_last_error_msg", "key", "key_exists", "lcfirst", "lcg_value", "levenshtein", "link",
  "localeconv", "localtime", "log", "log10", "log1p", "long2ip", "lstat", "ltrim", "mail", "max",
  "mb_check_encoding", "mb_convert_case", "mb_convert_encoding", "mb_detect_encoding",
  "mb_internal_encoding", "mb_str_split", "mb_strimwidth", "mb_stripos", "mb_strlen", "mb_strpos",
  "mb_strrpos", "mb_strtolower", "mb_strtoupper", "mb_strwidth", "mb_substr", "mb_substr_count",
  "md5", "md5_file", "memory_get_peak_usage", "memory_get_usage", "metaphone", "method_exists",
  "microtime", "min", "mkdir", "mktime", "move_uploaded_file", "mt_getrandmax", "mt_rand",
  "mt_srand", "nl2br", "number_format", "ob_end_clean", "ob_end_flush", "ob_get_clean",
  "ob_get_contents", "ob_get_level", "ob_start", "octdec", "opendir", "ord", "pack",
  "parse_ini_file", "parse_ini_string", "parse_url", "pathinfo", "pclose", "php_sapi_name",
  "php_uname", "phpversion", "pi", "popen", "pos", "pow", "preg_grep", "preg_last_error",
  "preg_last_error_msg", "preg_quote", "preg_split", "print_r", "printf", "property_exists",
  "quotemeta", "rad2deg", "rand", "random_bytes", "random_int", "range", "rawurldecode",
  "rawurlencode", "readdir", "readfile", "readlink", "realpath", "register_shutdown_function",
  "rename", "restore_error_handler", "restore_exception_handler", "rewind", "rewinddir", "rmdir",
  "round", "rtrim", "scandir", "serialize", "session_destroy", "session_id", "session_name",
  "session_regenerate_id", "session_start", "session_status", "set_error_handler",
  "set_exception_handler", "set_time_limit", "setcookie", "setlocale", "sha1", "sha1_file",
  "shell_exec", "sin", "sinh", "sizeof", "sleep", "soundex", "spl_autoload_register",
  "spl_object_hash", "spl_object_id", "sprintf", "sqrt", "srand", "str_contains", "str_ends_with",
  "str_getcsv", "str_pad", "str_repeat", "str_rot13", "str_shuffle", "str_split", "str_starts_with",
  "str_word_count", "strcasecmp", "strchr", "strcmp", "strcoll", "strcspn", "stream_context_create",
  "stream_get_contents", "stream_get_meta_data", "stream_set_blocking", "stream_set_timeout",
  "strip_tags", "stripcslashes", "stripos", "stripslashes", "stristr", "strlen", "strnatcasecmp",
  "strnatcmp", "strncasecmp", "strncmp", "strpbrk", "strpos", "strrchr", "strrev", "strripos",
  "strrpos", "strspn", "strstr", "strtok", "strtolower", "strtotime", "strtoupper", "strtr",
  "strval", "substr", "substr_compare", "substr_count", "substr_replace", "symlink",
  "sys_get_temp_dir", "tan", "tanh", "tempnam", "time", "timezone_identifiers_list", "tmpfile",
  "touch", "trait_exists", "trigger_error", "trim", "ucfirst", "ucwords", "umask", "uniqid",
  "unlink", "unpack", "unserialize", "urldecode", "urlencode", "user_error", "usleep",
  "utf8_decode", "utf8_encode", "var_dump", "var_export", "version_compare", "vfprintf", "vprintf",
  "vsprintf", "wordwrap"]

/-- The positions of the by-reference arguments of the other functions. -/
def builtinReferences : List (String × List Int) := [
  ("apc_dec", [2]), ("apc_fetch", [1]), ("apc_inc", [2]), ("array_multisort", [0]),
  ("array_pop", [0]), ("array_push", [0]), ("array_shift", [0]), ("array_splice", [0]),
  ("array_unshift", [0]), ("array_walk", [0]), ("array_walk_recursive", [0]), ("arsort", [0]),
  ("asort", [0]), ("call_user_method", [1]), ("call_user_method_array", [1]),
  ("curl_multi_exec", [1]), ("curl_multi_info_read", [1]), ("dns_get_mx", [1, 2]),
  ("dns_get_record", [2, 3]), ("each", [0]), ("end", [0]), ("exec", [1, 2]), ("flock", [2]),
  ("fscanf", [2, 3, 4, 5, 6, 7, 8, 9]), ("fsockopen", [2, 3]), ("getimagesize", [1]),
  ("getimagesizefromstring", [1]), ("getmxrr", [1, 2]), ("getopt", [2]), ("grapheme_extract", [4]),
  ("headers_sent", [0, 1]), ("is_callable", [2]), ("krsort", [0]), ("ksort", [0]),
  ("ldap_get_option", [2]), ("ldap_parse_result", [2, 3, 4, 5]),
  ("mb_convert_variables", [2, 3, 4, 5, 6, 7, 8, 9]), ("mb_ereg", [2]), ("mb_eregi", [2]),
  ("mb_parse_str", [1]), ("msg_receive", [2, 4, 7]), ("msg_send", [5]),
  ("mysqli_stmt_bind_param", [2, 3, 4, 5, 6, 7, 8, 9]),
  ("mysqli_stmt_bind_result", [1, 2, 3, 4, 5, 6, 7, 8, 9]), ("natcasesort", [0]), ("natsort", [0]),
  ("ncurses_color_content", [1, 2, 3]), ("ncurses_getmaxyx", [1, 2]), ("ncurses_getmouse", [0]),
  ("ncurses_getyx", [1, 2]), ("ncurses_instr", [0]), ("ncurses_mouse_trafo", [0, 1]),
  ("ncurses_mousemask", [1]), ("ncurses_pair_content", [1, 2]), ("ncurses_wmouse_trafo", [1, 2]),
  ("next", [0]), ("numfmt_parse", [3]), ("numfmt_parse_currency", [2, 3]),
  ("oci_bind_by_name", [2]), ("openssl_csr_export", [1]), ("openssl_csr_new", [1]),
  ("openssl_encrypt", [5]), ("openssl_open", [1]), ("openssl_pkcs12_export", [1]),
  ("openssl_pkcs12_read", [1]), ("openssl_pkey_export", [1]), ("openssl_private_decrypt", [1]),
  ("openssl_private_encrypt", [1]), ("openssl_public_decrypt", [1]),
  ("openssl_public_encrypt", [1]), ("openssl_random_pseudo_bytes", [1]),
  ("openssl_seal", [1, 2, 5]), ("openssl_sign", [1]), ("openssl_x509_export", [1]),
  ("parse_str", [1]), ("passthru", [1]), ("pcntl_wait", [0]), ("pcntl_waitpid", [1]),
  ("pfsockopen", [2, 3]), ("preg_filter", [4]), ("preg_match", [2]), ("preg_match_all", [2]),
  ("preg_replace", [4]), ("preg_replace_callback", [4]), ("preg_replace_callback_array", [3]),
  ("prev", [0]), ("proc_open", [2]), ("reset", [0]), ("rsort", [0]), ("settype", [0]),
  ("shuffle", [0]), ("similar_text", [2]), ("socket_create_pair", [3]),
  ("socket_getpeername", [1, 2]), ("socket_getsockname", [1, 2]), ("socket_recv", [1]),
  ("socket_recvfrom", [1, 4, 5]), ("socket_select", [0, 1, 2]), ("sodium_add", [0]),
  ("sodium_increment", [0]), ("sodium_memzero", [0]), ("sort", [0]),
  ("sscanf", [2, 3, 4, 5, 6, 7, 8, 9]), ("str_ireplace", [3]), ("str_replace", [3]),
  ("stream_select", [0, 1, 2]), ("stream_socket_accept", [2]), ("stream_socket_client", [1, 2]),
  ("stream_socket_recvfrom", [3]), ("stream_socket_server", [1, 2]), ("system", [1]),
  ("uasort", [0]), ("uksort", [0]), ("usort", [0]), ("xml_parse_into_struct", [2, 3]),
  ("xml_set_object", [1])]

/-- Functions whose by-reference arguments must have a value before the call. -/
def builtinsNotInitializing : List String := [
  "array_multisort", "array_pop", "array_push", "array_shift", "array_splice", "array_unshift",
  "array_walk", "array_walk_recursive", "arsort", "asort", "call_user_method",
  "call_user_method_array", "current", "each", "end", "extract", "key", "krsort", "ksort",
  "mb_convert_variables", "natcasesort", "natsort", "next", "openssl_csr_new", "pos", "prev",
  "reset", "rsort", "settype", "shuffle", "sort", "uasort", "uksort", "usort", "xml_set_object"]

/-- The signature of a function of the runtime. -/
def builtinSignature? (name : String) : Option Signature :=
  let doesNotInitialize := builtinsNotInitializing.contains name
  match builtinReferences.lookup name with
  | some refs => some { name, refs, doesNotInitialize }
  | none =>
    if builtinsWithoutReferences.contains name then some { name, doesNotInitialize } else none

end Unassigned
